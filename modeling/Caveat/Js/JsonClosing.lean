import Caveat.Js.Json

/-!
# An object is read to its closing brace

What a reader leaves is an end of what it was given. An object is therefore read only where its
closing brace is in the text: no beginning of a written object that ends before the brace is one.
-/

namespace Caveat.Js

theorem parseChars_suffix {t : Text} {r : Units × Text} (h : parseChars t = some r) : r.2 <:+ t := by
  induction t using parseChars.induct generalizing r with
  | case1 => cases h
  | case2 t => cases h; exact List.suffix_cons _ _
  | case3 a b c d t ih =>
      rw [parseChars, Option.bind_eq_bind, Option.bind_eq_some_iff] at h
      obtain ⟨u, _, h⟩ := h
      rw [Option.bind_eq_bind, Option.bind_eq_some_iff] at h
      obtain ⟨⟨s, rest⟩, hrest, hr⟩ := h
      cases hr
      exact (ih hrest).trans ⟨['\\', 'u', a, b, c, d], rfl⟩
  | case4 e t he ih =>
      rw [parseChars] at h
      · rw [Option.bind_eq_bind, Option.bind_eq_some_iff] at h
        obtain ⟨u, _, h⟩ := h
        rw [Option.bind_eq_bind, Option.bind_eq_some_iff] at h
        obtain ⟨⟨s, rest⟩, hrest, hr⟩ := h
        cases hr
        exact (ih hrest).trans ⟨['\\', e], rfl⟩
      · exact he
  | case5 c t hq hu hb hlow ih =>
      rw [parseChars, if_pos hlow] at h
      · cases h
      · exact hq
      · exact hu
      · exact hb
  | case6 c t hq hu hb hlow ih =>
      rw [parseChars, if_neg hlow] at h
      · rw [Option.bind_eq_bind, Option.bind_eq_some_iff] at h
        obtain ⟨⟨s, rest⟩, hrest, hr⟩ := h
        cases hr
        exact (ih hrest).trans (List.suffix_cons _ _)
      · exact hq
      · exact hu
      · exact hb

theorem skipSpace_suffix (t : Text) : skipSpace t <:+ t := List.dropWhile_suffix _

/-- What follows the digits of a text. -/
theorem digits_suffix {β : Type} {x : β} {t : Text} {r : β × Text}
    (h : (if t.takeWhile Char.isDigit = [] then none else some (x, t.dropWhile Char.isDigit)) =
      some r) : r.2 <:+ t := by
  split at h
  · cases h
  · cases h
    exact List.dropWhile_suffix _

theorem parseFraction_suffix {t : Text} {r : Text × Text} (h : parseFraction t = some r) :
    r.2 <:+ t := by
  unfold parseFraction at h
  split at h
  · exact (digits_suffix h).trans (List.suffix_cons _ _)
  · cases h
    exact List.suffix_refl _

theorem parseExponent_suffix {t : Text} {r : Int × Text} (h : parseExponent t = some r) :
    r.2 <:+ t := by
  unfold parseExponent at h
  split at h
  · rename_i c t
    split at h
    · -- a minus, a plus, or no sign
      dsimp only at h
      split at h
      · exact (digits_suffix h).trans ⟨[c, '-'], rfl⟩
      · exact (digits_suffix h).trans ⟨[c, '+'], rfl⟩
      · exact (digits_suffix h).trans (List.suffix_cons _ _)
    · cases h
      exact List.suffix_refl _
  · cases h
    exact List.suffix_refl _

/-- What follows the integer digits of a number. -/
theorem fraction_exponent_suffix {t : Text} {f : Text × Text → Int × Text → JsNumber}
    {r : JsNumber × Text}
    (h : ((parseFraction t).bind fun p => (parseExponent p.2).bind fun q => some (f p q, q.2)) =
      some r) : r.2 <:+ t := by
  rw [Option.bind_eq_some_iff] at h
  obtain ⟨p, hp, h⟩ := h
  rw [Option.bind_eq_some_iff] at h
  obtain ⟨q, hq, h⟩ := h
  cases h
  exact (parseExponent_suffix hq).trans (parseFraction_suffix hp)

variable {round : Rat → JsNumber}

theorem parseNumber_suffix {t : Text} {r : JsNumber × Text} (h : parseNumber round t = some r) :
    r.2 <:+ t := by
  unfold parseNumber at h
  dsimp only at h
  split at h
  · rename_i t
    split at h
    · cases h
    · exact (fraction_exponent_suffix h).trans
        ((List.dropWhile_suffix _).trans (List.suffix_cons _ _))
  · split at h
    · cases h
    · exact (fraction_exponent_suffix h).trans (List.dropWhile_suffix _)

/-- What a reader leaves in so many nested calls is an end of what it was given, and the members of
an object end at its brace. -/
structure Ends (round : Rat → JsNumber) (fuel : Nat) : Prop where
  value : ∀ {t : Text} {r : Json × Text}, parseValue round fuel t = some r → r.2 <:+ t
  items : ∀ {t : Text} {r : List Json × Text}, parseItems round fuel t = some r → r.2 <:+ t
  members : ∀ {t : Text} {r : List (Units × Json) × Text},
    parseMembers round fuel t = some r → '}' :: r.2 <:+ t

theorem map_suffix {α β : Type} {o : Option (α × Text)} {f : α → β} {r : β × Text} {t : Text}
    (h : o.map (fun r => (f r.1, r.2)) = some r) (ho : ∀ p, o = some p → p.2 <:+ t) : r.2 <:+ t := by
  rw [Option.map_eq_some_iff] at h
  obtain ⟨p, hp, rfl⟩ := h
  exact ho p hp

theorem suffix_of_skipSpace {t rest : Text} {c : Char} (h : skipSpace t = c :: rest) : rest <:+ t := by
  have hcons : c :: rest <:+ t := h ▸ skipSpace_suffix t
  exact (List.suffix_cons _ _).trans hcons

theorem Ends.value_succ {fuel : Nat} (ih : Ends round fuel) {t : Text} {r : Json × Text}
    (h : parseValue round (fuel + 1) t = some r) : r.2 <:+ t := by
  refine List.IsSuffix.trans ?_ (skipSpace_suffix t)
  rw [parseValue] at h
  split at h
  · rename_i heq
    cases h
    rw [heq]
    exact ⟨"null".toList, rfl⟩
  · rename_i heq
    cases h
    rw [heq]
    exact ⟨"true".toList, rfl⟩
  · rename_i heq
    cases h
    rw [heq]
    exact ⟨"false".toList, rfl⟩
  · rename_i heq
    rw [heq]
    exact (map_suffix h fun p hp => parseChars_suffix hp).trans (List.suffix_cons _ _)
  · rename_i t heq
    rw [heq]
    refine List.IsSuffix.trans ?_ (List.suffix_cons _ _)
    split at h
    · rename_i hskip
      cases h
      exact suffix_of_skipSpace hskip
    · exact map_suffix h fun p hp => (ih.items hp).trans (skipSpace_suffix t)
  · rename_i t heq
    rw [heq]
    refine List.IsSuffix.trans ?_ (List.suffix_cons _ _)
    split at h
    · rename_i hskip
      cases h
      exact suffix_of_skipSpace hskip
    · exact map_suffix h fun p hp =>
        ((List.suffix_cons _ _).trans (ih.members hp)).trans (skipSpace_suffix t)
  · exact map_suffix h fun p hp => parseNumber_suffix hp

theorem Ends.items_succ {fuel : Nat} (ih : Ends round fuel) {t : Text} {r : List Json × Text}
    (h : parseItems round (fuel + 1) t = some r) : r.2 <:+ t := by
  rw [parseItems] at h
  split at h
  · cases h
  · rename_i v rest hvalue
    refine List.IsSuffix.trans ?_ (ih.value hvalue)
    split at h
    · rename_i hskip
      exact (map_suffix h fun p hp => ih.items hp).trans (suffix_of_skipSpace hskip)
    · rename_i hskip
      cases h
      exact suffix_of_skipSpace hskip
    · cases h

theorem Ends.members_succ {fuel : Nat} (ih : Ends round fuel) {t : Text}
    {r : List (Units × Json) × Text} (h : parseMembers round (fuel + 1) t = some r) :
    '}' :: r.2 <:+ t := by
  rw [parseMembers] at h
  split at h
  · rename_i hquote
    refine List.IsSuffix.trans ?_ (suffix_of_skipSpace hquote)
    split at h
    · cases h
    · rename_i key rest hkey
      refine List.IsSuffix.trans ?_ (parseChars_suffix hkey)
      split at h
      · rename_i hcolon
        refine List.IsSuffix.trans ?_ (suffix_of_skipSpace hcolon)
        split at h
        · cases h
        · rename_i v rest hvalue
          refine List.IsSuffix.trans ?_ (ih.value hvalue)
          split at h
          · rename_i hskip
            rw [Option.map_eq_some_iff] at h
            obtain ⟨p, hp, rfl⟩ := h
            exact (ih.members hp).trans (suffix_of_skipSpace hskip)
          · rename_i hskip
            cases h
            exact hskip ▸ skipSpace_suffix _
          · cases h
      · cases h
  · cases h

theorem ends (fuel : Nat) : Ends round fuel := by
  induction fuel with
  | zero =>
      refine ⟨fun h => ?_, fun h => ?_, fun h => ?_⟩
      · rw [parseValue] at h; cases h
      · rw [parseItems] at h; cases h
      · rw [parseMembers] at h; cases h
  | succ fuel ih => exact ⟨ih.value_succ, ih.items_succ, ih.members_succ⟩

/-- **A text without a closing brace is no object.** -/
theorem brace_mem_of_object {t : Text} {members : List (Units × Json)}
    (h : parseJson round t = some (.object members)) : '}' ∈ t := by
  rw [parseJson] at h
  split at h
  · rename_i v rest hvalue
    split at h
    · cases h
      rw [parseValue] at hvalue
      refine (skipSpace_suffix t).subset ?_
      split at hvalue
      · cases hvalue
      · cases hvalue
      · cases hvalue
      · obtain ⟨_, _, hr⟩ := Option.map_eq_some_iff.mp hvalue
        cases hr
      · split at hvalue
        · cases hvalue
        · obtain ⟨_, _, hr⟩ := Option.map_eq_some_iff.mp hvalue
          cases hr
      · rename_i t heq
        rw [heq]
        refine List.mem_cons_of_mem _ ((skipSpace_suffix t).subset ?_)
        split at hvalue
        · rename_i hskip
          rw [hskip]
          exact List.mem_cons_self
        · obtain ⟨p, hp, _⟩ := Option.map_eq_some_iff.mp hvalue
          exact ((ends _).members hp).subset List.mem_cons_self
      · obtain ⟨_, _, hr⟩ := Option.map_eq_some_iff.mp hvalue
        cases hr
    · cases h
  · cases h

end Caveat.Js
