import Caveat.Js.JsonCode

/-!
# The texts of numbers

A text that is read as a number is made of digits, signs, points and exponent letters. So where
something else follows it, its end can be seen; and if every double is read back from its text, the
text tells which double it is.
-/

namespace Caveat.Js

open Lib (TellsApart)

def isNumberChar (c : Char) : Bool :=
  c.isDigit || c = '-' || c = '+' || c = '.' || c = 'e' || c = 'E'

/-- The part of a text that was read, and what is left of it. -/
def ReadsNumber (t rest : Text) : Prop :=
  ∃ used : Text, t = used ++ rest ∧ ∀ c ∈ used, isNumberChar c = true

theorem ReadsNumber.trans {t rest rest' : Text} (h : ReadsNumber t rest)
    (h' : ReadsNumber rest rest') : ReadsNumber t rest' := by
  obtain ⟨used, rfl, hused⟩ := h
  obtain ⟨used', rfl, hused'⟩ := h'
  refine ⟨used ++ used', by rw [List.append_assoc], fun c hc => ?_⟩
  rcases List.mem_append.mp hc with hc | hc
  · exact hused c hc
  · exact hused' c hc

theorem ReadsNumber.refl (t : Text) : ReadsNumber t t :=
  ⟨[], rfl, fun _ hc => absurd hc List.not_mem_nil⟩

theorem ReadsNumber.cons {c : Char} (hc : isNumberChar c = true) {t rest : Text}
    (h : ReadsNumber t rest) : ReadsNumber (c :: t) rest := by
  obtain ⟨used, rfl, hused⟩ := h
  refine ⟨c :: used, rfl, fun d hd => ?_⟩
  rcases List.mem_cons.mp hd with rfl | hd
  · exact hc
  · exact hused d hd

theorem readsNumber_digits (t : Text) : ReadsNumber t (t.dropWhile Char.isDigit) := by
  refine ⟨t.takeWhile Char.isDigit, List.takeWhile_append_dropWhile.symm, fun c hc => ?_⟩
  rw [isNumberChar, List.mem_takeWhile_imp hc]
  rfl

theorem parseFraction_reads {t digits rest : Text} (h : parseFraction t = some (digits, rest)) :
    ReadsNumber t rest := by
  unfold parseFraction at h
  split at h
  · rename_i t
    dsimp only at h
    split at h
    · cases h
    · cases h
      exact .cons rfl (readsNumber_digits t)
  · cases h
    exact .refl _

theorem parseExponent_reads {t rest : Text} {n : Int} (h : parseExponent t = some (n, rest)) :
    ReadsNumber t rest := by
  unfold parseExponent at h
  split at h
  · rename_i c t
    split at h
    · rename_i hc
      have hletter : isNumberChar c = true := by
        rcases hc with rfl | rfl
        · rfl
        · rfl
      refine .cons hletter ?_
      -- the sign, and then the digits
      split at h
      rename_i negative t' heq
      obtain ⟨_, hdigits⟩ := Option.ite_none_left_eq_some.mp h
      cases hdigits
      split at heq
      · cases heq
        exact .cons rfl (readsNumber_digits _)
      · cases heq
        exact .cons rfl (readsNumber_digits _)
      · cases heq
        exact readsNumber_digits _
    · cases h
      exact .refl _
  · cases h
    exact .refl _

theorem parseNumber_reads {round : Rat → JsNumber} {t rest : Text} {n : JsNumber}
    (h : parseNumber round t = some (n, rest)) : ReadsNumber t rest := by
  unfold parseNumber at h
  split at h
  rename_i negative t' heq
  dsimp only at h
  obtain ⟨_, h⟩ := Option.ite_none_left_eq_some.mp h
  obtain ⟨⟨fraction, t₁⟩, hfraction, h⟩ := Option.bind_eq_some_iff.mp h
  obtain ⟨⟨exponent, t₂⟩, hexponent, h⟩ := Option.bind_eq_some_iff.mp h
  cases h
  have hdigits := ((readsNumber_digits t').trans (parseFraction_reads hfraction)).trans
    (parseExponent_reads hexponent)
  split at heq
  · cases heq
    exact .cons rfl hdigits
  · cases heq
    exact hdigits

/-! ## Texts that are read back -/

/-- A double is read back from its text. -/
def Doubles.ReadsBack (doubles : Doubles) : Prop :=
  ∀ q, doubles.round q = .finite q →
    parseNumber doubles.round (doubles.text q) = some (.finite q, [])

/-- What may follow a value within a JSON text. -/
def Delimited (rest : Text) : Prop := ∀ c ∈ rest.head?, c = ',' ∨ c = ']' ∨ c = '}'

section ReadsBack

variable {doubles : Doubles} (hread : doubles.ReadsBack) {q q' : Rat}

include hread

theorem Doubles.ReadsBack.chars (hq : doubles.round q = .finite q) :
    ∀ c ∈ doubles.text q, isNumberChar c = true := by
  obtain ⟨used, htext, hused⟩ := parseNumber_reads (hread q hq)
  rw [htext, List.append_nil]
  exact hused

theorem Doubles.ReadsBack.exists_cons (hq : doubles.round q = .finite q) :
    ∃ c t, doubles.text q = c :: t ∧ isNumberChar c = true := by
  cases htext : doubles.text q with
  | nil =>
      have hnone := hread q hq
      rw [htext] at hnone
      cases hnone
  | cons c t => exact ⟨c, t, rfl, hread.chars hq c (by rw [htext]; exact List.mem_cons_self)⟩

/-- A number ends before a delimiter. -/
theorem Doubles.ReadsBack.takeWhile (hq : doubles.round q = .finite q) {rest : Text}
    (hrest : Delimited rest) : (doubles.text q ++ rest).takeWhile isNumberChar = doubles.text q := by
  rw [List.takeWhile_append_of_pos (hread.chars hq)]
  cases rest with
  | nil => exact List.append_nil _
  | cons c rest =>
      have hc : isNumberChar c = false := by
        rcases hrest c rfl with rfl | rfl | rfl
        · decide
        · decide
        · decide
      rw [List.takeWhile_cons, if_neg (by simp [hc]), List.append_nil]

theorem Doubles.ReadsBack.tellsApart (hq : doubles.round q = .finite q)
    (hq' : doubles.round q' = .finite q') :
    TellsApart Delimited (q = q') (doubles.text q) (doubles.text q') := by
  intro r r' hr hr' heq
  have htext := congrArg (List.takeWhile isNumberChar) heq
  rw [hread.takeWhile hq hr, hread.takeWhile hq' hr'] at htext
  have hparsed := hread q' hq'
  rw [← htext, hread q hq] at hparsed
  cases hparsed
  exact ⟨rfl, List.append_cancel_left heq⟩

end ReadsBack

/-- The natural numbers that are exact, and no others. -/
def naturalRound (q : Rat) : JsNumber :=
  if q.den = 1 ∧ 0 ≤ q.num ∧ q.num.toNat < 2 ^ 53 then .finite q else .nan

theorem naturalRound_nat (n : Nat) (h : n < 2 ^ 53) : naturalRound n = .finite n := by
  rw [naturalRound, if_pos]
  simpa using h

/-- Doubles that stand in for those of the engine where only such numbers occur. -/
def naturalDoubles : Doubles where
  round := naturalRound
  text q := ofNat q.num.toNat
  round_nat := naturalRound_nat
  text_nat _ _ := rfl

theorem naturalDoubles_readsBack : naturalDoubles.ReadsBack := by
  intro q hq
  have hnat : q = ((q.num.toNat : Nat) : Rat) := by
    have hq' : naturalRound q = .finite q := hq
    rw [naturalRound] at hq'
    split at hq'
    · rename_i h
      have hnum : ((q.num.toNat : Nat) : Int) = q.num := Int.toNat_of_nonneg h.2.1
      rw [← Int.cast_natCast, hnum]
      exact (Rat.den_eq_one_iff q).mp h.1 |>.symm
    · cases hq'
  have hparse := @parseNumber_ofNat naturalDoubles.round q.num.toNat []
    (fun c hc => absurd hc (by simp))
  rw [List.append_nil, ← hnat, hq] at hparse
  exact hparse

end Caveat.Js
