import Caveat.Js.Json

/-!
# Objects on several lines

`JSON.stringify(value, null, 2)` puts each member on a line of its own. An object whose values are
strings is read back, whatever white space follows it.
-/

namespace Caveat.Js

/-- A member with a string for its value. -/
def indentedMember (m : Units × Units) : Text := quote m.1 ++ ':' :: ' ' :: quote m.2

/-- The members behind the first one, and the end of the object. -/
def indentedRest : List (Units × Units) → Text
  | [] => ['\n', '}']
  | m :: ms => ',' :: '\n' :: ' ' :: ' ' :: (indentedMember m ++ indentedRest ms)

/-- `JSON.stringify(value, null, 2)`, for an object of strings. -/
def indentedObject : List (Units × Units) → Text
  | [] => ['{', '}']
  | m :: ms => '{' :: '\n' :: ' ' :: ' ' :: (indentedMember m ++ indentedRest ms)

/-- What is read of it. -/
def stringMember (m : Units × Units) : Units × Json := (m.1, .string m.2)

variable (round : Rat → JsNumber)

/-- A string is read wherever it stands. -/
theorem parseValue_quote (fuel : Nat) (s : Units) (rest : Text) :
    parseValue round (fuel + 1) (' ' :: quote s ++ rest) = some (.string s, rest) := by
  have hspace : skipSpace (' ' :: quote s ++ rest) =
      '"' :: ((codePoints s).flatMap CodePoint.quote ++ '"' :: rest) := by
    rw [List.cons_append, quote_append, skipSpace, List.dropWhile_cons_of_pos (by decide),
      List.dropWhile_cons_of_neg (by decide)]
  rw [parseValue, hspace]
  show (parseChars _).map _ = _
  rw [parseChars_quote_append]
  rfl

/-- A member that another one follows. -/
theorem parseMembers_comma {fuel : Nat} {m : Units × Units} {t rest rest' : Text}
    (ht : skipSpace t = indentedMember m ++ rest) (hrest : skipSpace rest = ',' :: rest') :
    parseMembers round (fuel + 2) t =
      (parseMembers round (fuel + 1) rest').map (fun r => (stringMember m :: r.1, r.2)) := by
  rw [parseMembers, ht, indentedMember, List.append_assoc, quote_append]
  simp only [parseChars_quote_append, List.cons_append, skipSpace_cons (c := ':') (by decide)]
  rw [← List.cons_append, parseValue_quote]
  simp only [hrest, stringMember]

/-- The last member. -/
theorem parseMembers_brace {fuel : Nat} {m : Units × Units} {t rest rest' : Text}
    (ht : skipSpace t = indentedMember m ++ rest) (hrest : skipSpace rest = '}' :: rest') :
    parseMembers round (fuel + 2) t = some ([stringMember m], rest') := by
  rw [parseMembers, ht, indentedMember, List.append_assoc, quote_append]
  simp only [parseChars_quote_append, List.cons_append, skipSpace_cons (c := ':') (by decide)]
  rw [← List.cons_append, parseValue_quote]
  simp only [hrest, stringMember]

theorem parseMembers_indented (ms : List (Units × Units)) : ∀ (m : Units × Units) (fuel : Nat)
    (space rest : Text), (∀ t, skipSpace (space ++ '"' :: t) = '"' :: t) →
      parseMembers round (fuel + ms.length + 2) (space ++ (indentedMember m ++ indentedRest ms ++ rest)) =
        some ((m :: ms).map stringMember, rest) := by
  have hmember : ∀ {m : Units × Units} {space t : Text}, (∀ t, skipSpace (space ++ '"' :: t) = '"' :: t) →
      skipSpace (space ++ (indentedMember m ++ t)) = indentedMember m ++ t := by
    intro m space t hspace
    rw [indentedMember, List.append_assoc, quote_append, hspace]
  induction ms with
  | nil =>
      intro m fuel space rest hspace
      rw [List.append_assoc]
      exact parseMembers_brace round (hmember hspace) rfl
  | cons m' ms ih =>
      intro m fuel space rest hspace
      have htail := ih m' fuel ['\n', ' ', ' '] rest fun t => by
        show skipSpace ('\n' :: ' ' :: ' ' :: '"' :: t) = '"' :: t
        rw [skipSpace, List.dropWhile_cons_of_pos (by decide), List.dropWhile_cons_of_pos (by decide),
          List.dropWhile_cons_of_pos (by decide), List.dropWhile_cons_of_neg (by decide)]
      have hcomma : skipSpace (indentedRest (m' :: ms) ++ rest) =
          ',' :: (['\n', ' ', ' '] ++ (indentedMember m' ++ indentedRest ms ++ rest)) := rfl
      rw [List.append_assoc, List.length_cons,
        show fuel + (ms.length + 1) + 2 = (fuel + ms.length + 1) + 2 by omega,
        parseMembers_comma round (hmember hspace) hcomma, htail]
      rfl

/-- **An object of strings is read back**, whatever space follows it. -/
theorem parseJson_indentedObject (m : Units × Units) (ms : List (Units × Units)) {space : Text}
    (hspace : skipSpace space = []) :
    parseJson round (indentedObject (m :: ms) ++ space) = some (.object ((m :: ms).map stringMember)) := by
  have hlength : ∀ ms : List (Units × Units), ms.length + 2 ≤ (indentedRest ms).length := by
    intro ms
    induction ms with
    | nil => exact Nat.le_refl 2
    | cons m ms ih =>
        simp only [indentedRest, List.length_cons, List.length_append]
        omega
  have hms := hlength ms
  have htotal : (indentedObject (m :: ms) ++ space).length =
      4 + ((indentedMember m).length + (indentedRest ms).length) + space.length := by
    rw [indentedObject, List.length_append, List.length_cons, List.length_cons, List.length_cons,
      List.length_cons, List.length_append]
    omega
  obtain ⟨fuel, hfuel⟩ : ∃ fuel,
      2 * (indentedObject (m :: ms) ++ space).length + 1 = (fuel + ms.length + 2) + 1 :=
    ⟨2 * (indentedObject (m :: ms) ++ space).length - ms.length - 2, by omega⟩
  have hmembers := parseMembers_indented round ms m fuel [] space fun t => skipSpace_cons (by decide) t
  have hstart : skipSpace ('\n' :: ' ' :: ' ' :: (indentedMember m ++ indentedRest ms) ++ space) =
      indentedMember m ++ indentedRest ms ++ space := by
    rw [indentedMember, List.append_assoc, quote_append]
    rw [skipSpace, List.cons_append, List.cons_append, List.cons_append,
      List.dropWhile_cons_of_pos (by decide), List.dropWhile_cons_of_pos (by decide),
      List.dropWhile_cons_of_pos (by decide), List.cons_append, List.dropWhile_cons_of_neg (by decide)]
  have hquote : ∃ t, indentedMember m ++ indentedRest ms ++ space = '"' :: t := by
    rw [indentedMember, List.append_assoc, List.append_assoc, quote_append]
    exact ⟨_, rfl⟩
  have hvalue : parseValue round (fuel + ms.length + 2 + 1) (indentedObject (m :: ms) ++ space) =
      some (.object ((m :: ms).map stringMember), space) := by
    rw [parseValue, indentedObject, List.cons_append, skipSpace_cons (by decide)]
    obtain ⟨t, ht⟩ := hquote
    rw [List.nil_append, ht] at hmembers
    simp only [hstart, ht]
    show (parseMembers round (fuel + ms.length + 2) ('"' :: t)).map _ = _
    rw [hmembers]
    rfl
  rw [parseJson, hfuel, hvalue]
  exact if_pos hspace

end Caveat.Js
