import Caveat.Publish.ScanProof

/-!
# Tokens that tell who wrote a line

The search for a token goes on behind an occurrence whether it stood alone or not, so that it sees the
leftmost occurrences that do not overlap. An occurrence that stands alone is passed over only where it
begins inside one that does not.
-/

namespace Caveat.Publish

open Js

variable {line token : Units} {start index : Nat}

/-! ## Occurrences -/

def Occurs (line token : Units) (index : Nat) : Prop :=
  index ≤ line.length ∧ token <+: line.drop index

/-- The leftmost occurrences from an index on, each behind the one before. -/
inductive Leftmost (line token : Units) : Nat → Nat → Prop where
  | first {start index : Nat} (h : indexOfFrom line token start = some index) :
      Leftmost line token start index
  | next {start index later : Nat} (h : indexOfFrom line token start = some index)
      (hlater : Leftmost line token (index + token.length) later) : Leftmost line token start later

theorem Leftmost.occurs (h : Leftmost line token start index) : Occurs line token index := by
  induction h with
  | first h =>
      obtain ⟨_, hle, hstarts, _⟩ := indexOfFrom_eq_some_iff.mp h
      exact ⟨hle, hstarts⟩
  | next _ _ ih => exact ih

theorem Leftmost.start_le (h : Leftmost line token start index) : start ≤ index := by
  induction h with
  | first h => exact (indexOfFrom_eq_some_iff.mp h).1
  | next h _ ih =>
      have := (indexOfFrom_eq_some_iff.mp h).1
      omega

theorem Occurs.inside (h : Occurs line token index) : index + token.length ≤ line.length := by
  have hle := h.2.length_le
  have hbound := h.1
  rw [List.length_drop] at hle
  omega

/-- What the search from an index on reports. -/
theorem mem_tokenMatches {f : Found} (hpos : 0 < token.length) (fuel : Nat) :
    ∀ start, line.length < fuel + start → (f ∈ tokenMatches line token fuel start ↔
      ∃ index, Leftmost line token start index ∧ standsAlone line token index = true ∧
        f = { rule := .selfIdentity, severity := .block, raw := token, index }) := by
  induction fuel with
  | zero =>
      intro start hfuel
      refine iff_of_false List.not_mem_nil ?_
      rintro ⟨index, hleft, _⟩
      have hinside := hleft.occurs.inside
      have hstart := hleft.start_le
      omega
  | succ fuel ih =>
      intro start hfuel
      have hnone : ∀ {index}, indexOfFrom line token start = none →
          ¬ Leftmost line token start index := by
        rintro index hnone (h | h)
        · rw [hnone] at h
          exact absurd h (by simp)
        · rw [hnone] at h
          exact absurd h (by simp)
      rw [tokenMatches]
      split
      · rename_i hshort
        refine iff_of_false List.not_mem_nil ?_
        rintro ⟨index, hleft, _⟩
        refine hnone ?_ hleft
        cases hfind : indexOfFrom line token start with
        | none => rfl
        | some i =>
            obtain ⟨hstart, hle, hstarts, _⟩ := indexOfFrom_eq_some_iff.mp hfind
            have hinside := Occurs.inside ⟨hle, hstarts⟩
            omega
      · cases hfind : indexOfFrom line token start with
        | none =>
            refine iff_of_false List.not_mem_nil ?_
            rintro ⟨index, hleft, _⟩
            exact hnone hfind hleft
        | some i =>
            have hstart := (indexOfFrom_eq_some_iff.mp hfind).1
            have hmax : max 1 token.length = token.length := by omega
            have hrest := ih (i + token.length) (by omega)
            have hsplit : ∀ index, Leftmost line token start index ↔
                index = i ∨ Leftmost line token (i + token.length) index := by
              intro index
              constructor
              · rintro (h | ⟨h, hlater⟩)
                · exact .inl (Option.some.inj (h.symm.trans hfind))
                · exact .inr (Option.some.inj (h.symm.trans hfind) ▸ hlater)
              · rintro (rfl | hlater)
                · exact .first hfind
                · exact .next hfind hlater
            simp only [hmax]
            split
            · rename_i halone
              rw [List.mem_cons, hrest]
              constructor
              · rintro (rfl | ⟨index, hleft, h⟩)
                · exact ⟨i, .first hfind, halone, rfl⟩
                · exact ⟨index, .next hfind hleft, h⟩
              · rintro ⟨index, hleft, h, rfl⟩
                rcases (hsplit index).mp hleft with rfl | hlater
                · exact .inl rfl
                · exact .inr ⟨index, hlater, h, rfl⟩
            · rename_i halone
              rw [hrest]
              constructor
              · rintro ⟨index, hleft, h⟩
                exact ⟨index, .next hfind hleft, h⟩
              · rintro ⟨index, hleft, h, rfl⟩
                rcases (hsplit index).mp hleft with rfl | hlater
                · exact absurd h halone
                · exact ⟨index, hlater, h, rfl⟩

/-- What is reported of a line. -/
theorem mem_selfIdentityFound {selfIdentity : List Units} {f : Found} :
    f ∈ selfIdentityFound selfIdentity line ↔ ∃ token ∈ selfIdentity, 3 ≤ token.length ∧
      ∃ index, Leftmost line token 0 index ∧ standsAlone line token index = true ∧
        f = { rule := .selfIdentity, severity := .block, raw := token, index } := by
  rw [selfIdentityFound, List.mem_flatMap]
  refine exists_congr fun token => and_congr_right fun _ => ?_
  split
  · rename_i hshort
    exact iff_of_false List.not_mem_nil (fun h => by omega)
  · rename_i hlong
    rw [mem_tokenMatches (by omega) _ 0 (by omega)]
    exact ⟨fun h => ⟨by omega, h⟩, fun h => h.2⟩

/-! ## Overlaps -/

/-- Every occurrence begins in a leftmost one. -/
theorem exists_leftmost_around (hpos : 0 < token.length) (h : Occurs line token index) :
    ∀ start, start ≤ index → ∃ i, Leftmost line token start i ∧ i ≤ index ∧
      index < i + token.length := by
  intro start hstart
  induction hn : index - start using Nat.strong_induction_on generalizing start with
  | _ n ih =>
      have hfound : ∃ i, indexOfFrom line token start = some i ∧ i ≤ index := by
        cases hfind : indexOfFrom line token start with
        | some i =>
            obtain ⟨_, _, _, hfirst⟩ := indexOfFrom_eq_some_iff.mp hfind
            refine ⟨i, rfl, ?_⟩
            by_contra hlt
            exact hfirst index hstart (by omega) h.2
        | none =>
            rw [indexOfFrom, List.find?_eq_none] at hfind
            have hmem : index ∈ (List.range (line.length + 1 - start)).map (· + start) := by
              have := h.1
              exact List.mem_map.mpr ⟨index - start, List.mem_range.mpr (by omega), by omega⟩
            exact absurd (List.isPrefixOf_iff_prefix.mpr h.2) (hfind index hmem)
      obtain ⟨i, hi, hle⟩ := hfound
      have hge := (indexOfFrom_eq_some_iff.mp hi).1
      by_cases hin : index < i + token.length
      · exact ⟨i, .first hi, hle, hin⟩
      · obtain ⟨j, hleft, hj⟩ := ih (index - (i + token.length)) (by omega) (i + token.length)
          (by omega) rfl
        exact ⟨j, .next hi hleft, hj⟩

/-- The token begins again inside itself, behind a character that is no letter. -/
def HidesItself (token : Units) : Prop :=
  ∃ k, 0 < k ∧ k < token.length ∧ token.drop k <+: token ∧
    ∀ u, token[k - 1]? = some u → isAsciiLetter u = false

theorem getElem?_of_starts {s t : Units} (h : s <+: t) {k : Nat} (hk : k < s.length) :
    t[k]? = s[k]? := by
  obtain ⟨rest, rfl⟩ := h
  exact List.getElem?_append_left hk

/-- An occurrence that stands alone and begins inside another one. -/
theorem hidesItself_of_overlap {i : Nat} (hi : Occurs line token i) (h : Occurs line token index)
    (hlt : i < index) (hin : index < i + token.length)
    (halone : standsAlone line token index = true) : HidesItself token := by
  refine ⟨index - i, by omega, by omega, ?_, fun u hu => ?_⟩
  · obtain ⟨rest, hrest⟩ := hi.2
    have hsplit : line.drop index = token.drop (index - i) ++ rest := by
      have hdrop : line.drop index = (line.drop i).drop (index - i) := by
        rw [List.drop_drop, Nat.add_sub_cancel' hlt.le]
      rw [hdrop, ← hrest, List.drop_append_of_le_length (by omega)]
    have hleft : token.drop (index - i) <+: line.drop index := ⟨rest, hsplit.symm⟩
    refine List.prefix_of_prefix_length_le hleft h.2 ?_
    rw [List.length_drop]
    omega
  · have hat : (line : Units)[index - 1]? = some u := by
      have hinside : (line.drop i)[index - i - 1]? = token[index - i - 1]? :=
        getElem?_of_starts hi.2 (by omega)
      rw [List.getElem?_drop, show i + (index - i - 1) = index - 1 by omega] at hinside
      rw [hinside, hu]
    rw [standsAlone, Bool.and_eq_true, Bool.not_eq_true', if_neg (by omega), hat] at halone
    exact halone.1

/-! ## Completeness -/

/-- An occurrence with no letter beside it. -/
def OccursAlone (line token : Units) (index : Nat) : Prop :=
  Occurs line token index ∧ standsAlone line token index = true

/-- A token is reported exactly if it occurs alone, and where it does. -/
structure Complete (selfIdentity : List Units) (line : Units) : Prop where
  reported : ∀ token ∈ selfIdentity, 3 ≤ token.length →
    ((∃ f ∈ selfIdentityFound selfIdentity line, f.raw = token) ↔
      ∃ index, OccursAlone line token index)
  occurs : ∀ f ∈ selfIdentityFound selfIdentity line,
    f.raw ∈ selfIdentity ∧ 3 ≤ f.raw.length ∧ OccursAlone line f.raw f.index

/-- If an occurrence of the token stands alone, one of the leftmost does. -/
def SeenAlone (line token : Units) : Prop :=
  (∃ index, OccursAlone line token index) →
    ∃ index, Leftmost line token 0 index ∧ standsAlone line token index = true

theorem complete_iff {selfIdentity : List Units} : Complete selfIdentity line ↔
    ∀ token ∈ selfIdentity, 3 ≤ token.length → SeenAlone line token := by
  have hreported : ∀ token ∈ selfIdentity, 3 ≤ token.length →
      ((∃ f ∈ selfIdentityFound selfIdentity line, f.raw = token) ↔
        ∃ index, Leftmost line token 0 index ∧ standsAlone line token index = true) := by
    intro token hmem hlong
    constructor
    · rintro ⟨f, hf, rfl⟩
      obtain ⟨token, _, _, index, hleft, halone, rfl⟩ := mem_selfIdentityFound.mp hf
      exact ⟨index, hleft, halone⟩
    · rintro ⟨index, hleft, halone⟩
      exact ⟨_, mem_selfIdentityFound.mpr ⟨token, hmem, hlong, index, hleft, halone, rfl⟩, rfl⟩
  constructor
  · intro h token hmem hlong halone
    exact (hreported token hmem hlong).mp ((h.reported token hmem hlong).mpr halone)
  · intro h
    refine ⟨fun token hmem hlong => ?_, fun f hf => ?_⟩
    · rw [hreported token hmem hlong]
      refine ⟨?_, h token hmem hlong⟩
      rintro ⟨index, hleft, halone⟩
      exact ⟨index, hleft.occurs, halone⟩
    · obtain ⟨token, hmem, hlong, index, hleft, halone, rfl⟩ := mem_selfIdentityFound.mp hf
      exact ⟨hmem, hlong, hleft.occurs, halone⟩

theorem seenAlone_of_not_hidesItself (hpos : 0 < token.length) (h : ¬ HidesItself token) :
    SeenAlone line token := by
  rintro ⟨index, hoccurs, halone⟩
  obtain ⟨i, hleft, hle, hin⟩ := exists_leftmost_around hpos hoccurs 0 (Nat.zero_le _)
  by_cases heq : i = index
  · exact ⟨i, hleft, heq ▸ halone⟩
  · exact absurd (hidesItself_of_overlap hleft.occurs hoccurs (by omega) hin halone) h

/-! ## Tokens that hide themselves -/

/-- A letter other than the first character of the token. -/
def otherLetter (token : Units) : UInt16 := if token.head? = some (unitOf 'x') then unitOf 'y' else unitOf 'x'

theorem otherLetter_isAsciiLetter (token : Units) : isAsciiLetter (otherLetter token) = true := by
  unfold otherLetter
  split
  · decide
  · decide

theorem head?_ne_otherLetter (token : Units) : token.head? ≠ some (otherLetter token) := by
  unfold otherLetter
  split
  · rename_i h
    rw [h]
    decide
  · assumption

/-- A letter, the token up to where it begins again, and the token. -/
def hidingLine (token : Units) (k : Nat) : Units := otherLetter token :: (token.take k ++ token)

theorem length_hidingLine {k : Nat} (hk : k < token.length) :
    (hidingLine token k).length = 1 + k + token.length := by
  rw [hidingLine, List.length_cons, List.length_append, List.length_take, Nat.min_eq_left hk.le]
  omega

/-- The only leftmost occurrence is the one behind the letter. -/
theorem leftmost_hidingLine {k : Nat} (hk : k < token.length) (hborder : token.drop k <+: token)
    (h : Leftmost (hidingLine token k) token 0 index) : index = 1 := by
  have hlength := length_hidingLine hk
  have hpos : 0 < token.length := by omega
  have hzero : ¬ token <+: (hidingLine token k).drop 0 := by
    intro hstarts
    have hhead := getElem?_of_starts hstarts hpos
    rw [List.drop_zero, hidingLine, List.getElem?_cons_zero, ← List.head?_eq_getElem?] at hhead
    exact head?_ne_otherLetter token hhead.symm
  have hone : token <+: (hidingLine token k).drop 1 := by
    obtain ⟨rest, hrest⟩ := hborder
    refine ⟨rest, ?_⟩
    have hsplit : token.take k ++ (token.drop k ++ rest) = token ++ rest := by
      rw [← List.append_assoc, List.take_append_drop]
    rw [hidingLine, List.drop_succ_cons, List.drop_zero, ← hsplit, hrest]
  have hfirst : ∀ i, indexOfFrom (hidingLine token k) token 0 = some i → i = 1 := by
    intro i hi
    obtain ⟨_, _, hstarts, hnone⟩ := indexOfFrom_eq_some_iff.mp hi
    rcases Nat.lt_trichotomy i 1 with hlt | heq | hgt
    · obtain rfl : i = 0 := by omega
      exact absurd hstarts hzero
    · exact heq
    · exact absurd hone (hnone 1 (Nat.zero_le _) hgt)
  rcases h with h | ⟨h, hlater⟩
  · exact hfirst _ h
  · rw [hfirst _ h] at hlater
    have hinside := hlater.occurs.inside
    have hstart := hlater.start_le
    omega

theorem not_seenAlone_hidingLine {k : Nat} (hpos : 0 < k) (hk : k < token.length)
    (hborder : token.drop k <+: token)
    (hplain : ∀ u, token[k - 1]? = some u → isAsciiLetter u = false) :
    ¬ SeenAlone (hidingLine token k) token := by
  have hlength := length_hidingLine hk
  intro h
  have htake : (token.take k).length = k := List.length_take_of_le hk.le
  have hdrop : (hidingLine token k).drop (k + 1) = token := by
    rw [hidingLine, List.drop_succ_cons, List.drop_append, htake, Nat.sub_self, List.drop_zero,
      List.drop_eq_nil_of_le htake.le, List.nil_append]
  have hbefore : (hidingLine token k)[k]? = token[k - 1]? := by
    obtain ⟨j, rfl⟩ : ∃ j, k = j + 1 := ⟨k - 1, by omega⟩
    rw [hidingLine, List.getElem?_cons_succ, List.getElem?_append_left (by omega),
      List.getElem?_take_of_lt (Nat.lt_succ_self j)]
    rfl
  have hafter : (hidingLine token k)[k + 1 + token.length]? = none :=
    List.getElem?_eq_none (by omega)
  have halone : OccursAlone (hidingLine token k) token (k + 1) := by
    refine ⟨⟨by omega, hdrop.symm ▸ List.prefix_rfl⟩, ?_⟩
    rw [standsAlone, if_neg (by omega), Nat.add_sub_cancel, hbefore, hafter]
    obtain ⟨u, hu⟩ : ∃ u, token[k - 1]? = some u :=
      ⟨_, List.getElem?_eq_getElem (show k - 1 < token.length by omega)⟩
    rw [hu, Option.any_some, hplain u hu]
    rfl
  obtain ⟨index, hleft, hindex⟩ := h ⟨k + 1, halone⟩
  rw [leftmost_hidingLine hk hborder hleft] at hindex
  have hletter : (hidingLine token k)[0]? = some (otherLetter token) := rfl
  rw [standsAlone, if_neg (by omega), Nat.sub_self, hletter, Option.any_some,
    otherLetter_isAsciiLetter] at hindex
  exact absurd hindex (by simp)

/--
**When every token is found.** The tokens that are reported of a line are those that occur alone in it,
exactly if of each token that does a leftmost occurrence does. A token is found on every line exactly if it
does not begin again inside itself behind a character that is no letter.
-/
theorem self_identity_complete_iff (selfIdentity : List Units) (line : Units) :
    (Complete selfIdentity line ↔
      ∀ token ∈ selfIdentity, 3 ≤ token.length → SeenAlone line token) ∧
    ∀ token : Units, 3 ≤ token.length →
      ((∀ line, Complete [token] line) ↔ ¬ HidesItself token) := by
  refine ⟨complete_iff, fun token hlong => ?_⟩
  constructor
  · rintro h ⟨k, hpos, hk, hborder, hplain⟩
    exact not_seenAlone_hidingLine hpos hk hborder hplain
      (complete_iff.mp (h (hidingLine token k)) token List.mem_cons_self hlong)
  · intro h line
    refine complete_iff.mpr fun token' hmem _ => ?_
    obtain rfl := List.mem_singleton.mp hmem
    exact seenAlone_of_not_hidesItself (by omega) h

/-- The second `a-a` stands alone, and begins inside the first, which does not. -/
theorem overlapping_identity_missed :
    ¬ Complete [unitsOf "a-a".toList] (unitsOf "xa-a-a".toList) := by
  intro h
  have hfound : selfIdentityFound [unitsOf "a-a".toList] (unitsOf "xa-a-a".toList) = [] := by
    decide +kernel
  have halone : OccursAlone (unitsOf "xa-a-a".toList) (unitsOf "a-a".toList) 3 :=
    ⟨⟨by decide +kernel, by decide +kernel⟩, by decide +kernel⟩
  obtain ⟨f, hf, _⟩ := (h.reported _ List.mem_cons_self (by decide +kernel)).mpr ⟨3, halone⟩
  rw [hfound] at hf
  exact List.not_mem_nil hf

end Caveat.Publish
