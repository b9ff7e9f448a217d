import Caveat.Js.Utf
import Caveat.Js.Value

/-!
# JSON

`JSON.stringify` of strings, and `JSON.parse`. A parsed object is the list of its members as they
stand; where a name is repeated the last one counts. What double a decimal number denotes is a
parameter.
-/

namespace Caveat.Js

inductive Json where
  | null
  | bool (b : Bool)
  | number (n : JsNumber)
  | string (s : Units)
  | array (items : List Json)
  | object (members : List (Units × Json))

/-- `value.key`, for a value that has properties. -/
def Json.member? (v : Json) (key : Text) : Option Json :=
  match v with
  | .object members => ((members.filter (fun m => m.1 = unitsOf key)).getLast?).map Prod.snd
  | _ => none

/-! ## Writing strings -/

def hexDigit (n : Nat) : Char := if n < 10 then Char.ofNat (n + 48) else Char.ofNat (n + 87)

/-- `\uXXXX`. -/
def unicodeEscape (n : Nat) : Text :=
  ['\\', 'u', hexDigit (n / 4096 % 16), hexDigit (n / 256 % 16), hexDigit (n / 16 % 16),
    hexDigit (n % 16)]

def quoteChar (c : Char) : Text :=
  if c = '"' then ['\\', '"']
  else if c = '\\' then ['\\', '\\']
  else if c = '\n' then ['\\', 'n']
  else if c = '\r' then ['\\', 'r']
  else if c = '\t' then ['\\', 't']
  else if c.toNat = 8 then ['\\', 'b']
  else if c.toNat = 12 then ['\\', 'f']
  else if c.toNat < 0x20 then unicodeEscape c.toNat
  else [c]

def CodePoint.quote : CodePoint → Text
  | .char c => quoteChar c
  | .lone u => unicodeEscape u.toNat

/-- `JSON.stringify(s)` for a string. -/
def quote (s : Units) : Text := '"' :: (codePoints s).flatMap CodePoint.quote ++ ['"']

/-! ## Reading -/

def hexValue (c : Char) : Option Nat :=
  if '0' ≤ c ∧ c ≤ '9' then some (c.toNat - 48)
  else if 'a' ≤ c ∧ c ≤ 'f' then some (c.toNat - 87)
  else if 'A' ≤ c ∧ c ≤ 'F' then some (c.toNat - 55)
  else none

/-- The code unit that an escape letter stands for. -/
def escaped (c : Char) : Option UInt16 :=
  if c = '"' ∨ c = '\\' ∨ c = '/' then some (UInt16.ofNat c.toNat)
  else if c = 'n' then some 10
  else if c = 'r' then some 13
  else if c = 't' then some 9
  else if c = 'b' then some 8
  else if c = 'f' then some 12
  else none

/-- The code unit of four hexadecimal digits. -/
def hexUnit (a b c d : Char) : Option UInt16 := do
  let a ← hexValue a
  let b ← hexValue b
  let c ← hexValue c
  let d ← hexValue d
  return UInt16.ofNat (((a * 16 + b) * 16 + c) * 16 + d)

/-- The rest of a string after its opening quote. -/
def parseChars : Text → Option (Units × Text)
  | [] => none
  | '"' :: t => some ([], t)
  | '\\' :: 'u' :: a :: b :: c :: d :: t => do
      let u ← hexUnit a b c d
      let (s, rest) ← parseChars t
      return (u :: s, rest)
  | '\\' :: e :: t => do
      let u ← escaped e
      let (s, rest) ← parseChars t
      return (u :: s, rest)
  | c :: t => do
      if c.toNat < 0x20 || c = '\\' then none
      let (s, rest) ← parseChars t
      return (charUnits c ++ s, rest)

def isJsonSpace (c : Char) : Bool := c = ' ' || c = '\t' || c = '\n' || c = '\r'

def skipSpace (t : Text) : Text := t.dropWhile isJsonSpace

/-- The digits after a point, if there is one. -/
def parseFraction : Text → Option (Text × Text)
  | '.' :: t =>
      let digits := t.takeWhile Char.isDigit
      if digits = [] then none else some (digits, t.dropWhile Char.isDigit)
  | t => some ([], t)

/-- The exponent, if there is one. -/
def parseExponent : Text → Option (Int × Text)
  | c :: t =>
      if c = 'e' ∨ c = 'E' then
        let (negative, t) : Bool × Text := match t with
          | '-' :: t => (true, t)
          | '+' :: t => (false, t)
          | t => (false, t)
        let digits := t.takeWhile Char.isDigit
        let n : Int := Nat.ofDigitChars 10 digits 0
        if digits = [] then none else some (if negative then -n else n, t.dropWhile Char.isDigit)
      else some (0, c :: t)
  | [] => some (0, [])

section Numbers

variable (round : Rat → JsNumber)

/-- A number, rounded. -/
def parseNumber (t : Text) : Option (JsNumber × Text) := do
  let (negative, t) : Bool × Text := match t with
    | '-' :: t => (true, t)
    | t => (false, t)
  let digits := t.takeWhile Char.isDigit
  if digits = [] || (digits.length ≠ 1 && digits.head? = some '0') then none
  let (fraction, t) ← parseFraction (t.dropWhile Char.isDigit)
  let (exponent, t) ← parseExponent t
  let n : Rat := (Nat.ofDigitChars 10 (digits ++ fraction) 0 : Nat)
  let value := n * (10 : Rat) ^ (exponent - fraction.length)
  return (round (if negative then -value else value), t)

mutual

/-- A value and what follows it, in so many nested calls. -/
def parseValue : Nat → Text → Option (Json × Text)
  | 0, _ => none
  | fuel + 1, t =>
      match skipSpace t with
      | 'n' :: 'u' :: 'l' :: 'l' :: t => some (.null, t)
      | 't' :: 'r' :: 'u' :: 'e' :: t => some (.bool true, t)
      | 'f' :: 'a' :: 'l' :: 's' :: 'e' :: t => some (.bool false, t)
      | '"' :: t => (parseChars t).map (fun r => (.string r.1, r.2))
      | '[' :: t =>
          match skipSpace t with
          | ']' :: t => some (.array [], t)
          | t => (parseItems fuel t).map (fun r => (.array r.1, r.2))
      | '{' :: t =>
          match skipSpace t with
          | '}' :: t => some (.object [], t)
          | t => (parseMembers fuel t).map (fun r => (.object r.1, r.2))
      | t => (parseNumber round t).map (fun r => (.number r.1, r.2))

def parseItems : Nat → Text → Option (List Json × Text)
  | 0, _ => none
  | fuel + 1, t =>
      match parseValue fuel t with
      | none => none
      | some (v, t) =>
          match skipSpace t with
          | ',' :: t => (parseItems fuel t).map (fun r => (v :: r.1, r.2))
          | ']' :: t => some ([v], t)
          | _ => none

def parseMembers : Nat → Text → Option (List (Units × Json) × Text)
  | 0, _ => none
  | fuel + 1, t =>
      match skipSpace t with
      | '"' :: t =>
          match parseChars t with
          | none => none
          | some (key, t) =>
              match skipSpace t with
              | ':' :: t =>
                  match parseValue fuel t with
                  | none => none
                  | some (v, t) =>
                      match skipSpace t with
                      | ',' :: t => (parseMembers fuel t).map (fun r => ((key, v) :: r.1, r.2))
                      | '}' :: t => some ([(key, v)], t)
                      | _ => none
              | _ => none
      | _ => none

end

/-- `JSON.parse`; `none` is a `SyntaxError`. -/
def parseJson (t : Text) : Option Json :=
  match parseValue round (2 * t.length + 1) t with
  | some (v, rest) => if skipSpace rest = [] then some v else none
  | none => none

end Numbers

/-! ## What is written is read -/

attribute [local simp] parseChars parseValue parseItems parseMembers

theorem hexValue_hexDigit {n : Nat} (h : n < 16) : hexValue (hexDigit n) = some n := by
  have hall : ∀ i : Fin 16, hexValue (hexDigit i) = some i.val := by decide
  exact hall ⟨n, h⟩

theorem parseChars_unicodeEscape {n : Nat} (h : n < 65536) (rest : Text) :
    parseChars (unicodeEscape n ++ rest) =
      (parseChars rest).map (fun r => (UInt16.ofNat n :: r.1, r.2)) := by
  have hunit : hexUnit (hexDigit (n / 4096 % 16)) (hexDigit (n / 256 % 16))
      (hexDigit (n / 16 % 16)) (hexDigit (n % 16)) = some (UInt16.ofNat n) := by
    unfold hexUnit
    rw [hexValue_hexDigit (by omega), hexValue_hexDigit (by omega), hexValue_hexDigit (by omega),
      hexValue_hexDigit (by omega)]
    show some (UInt16.ofNat _) = _
    congr 2
    omega
  show parseChars ('\\' :: 'u' :: _ :: _ :: _ :: _ :: rest) = _
  rw [parseChars, hunit]
  cases parseChars rest <;> rfl

theorem parseChars_escaped {e : Char} {u : UInt16} (h : escaped e = some u) (rest : Text) :
    parseChars ('\\' :: e :: rest) = (parseChars rest).map (fun r => (u :: r.1, r.2)) := by
  have he : e ≠ 'u' := by
    rintro rfl
    rw [show escaped 'u' = none from by decide] at h
    exact absurd h (by simp)
  rw [parseChars, h]
  · cases parseChars rest <;> rfl
  · intro a b c d t heq
    exact absurd heq he

theorem parseChars_plain {c : Char} (hq : c ≠ '"') (hb : c ≠ '\\') (hs : ¬ c.toNat < 0x20)
    (rest : Text) :
    parseChars (c :: rest) = (parseChars rest).map (fun r => (charUnits c ++ r.1, r.2)) := by
  rw [parseChars]
  · rw [if_neg (by simp [hb]; omega)]
    cases parseChars rest <;> rfl
  · exact hq
  · intro a b d e t hc
    exact absurd hc hb
  · intro e t hc
    exact absurd hc hb

theorem parseChars_quote (p : CodePoint) (rest : Text) : parseChars (p.quote ++ rest) =
    (parseChars rest).map (fun r => (p.units ++ r.1, r.2)) := by
  cases p with
  | lone u =>
      show parseChars (unicodeEscape u.toNat ++ rest) = _
      rw [parseChars_unicodeEscape u.toNat_lt, UInt16.ofNat_toNat]
      rfl
  | char c =>
      show parseChars (quoteChar c ++ rest) =
        (parseChars rest).map (fun r => (charUnits c ++ r.1, r.2))
      unfold quoteChar
      -- a short escape, a long one, or the character itself
      by_cases h₁ : c = '"'
      · rw [if_pos h₁, h₁]
        exact parseChars_escaped (by decide) rest
      rw [if_neg h₁]
      by_cases h₂ : c = '\\'
      · rw [if_pos h₂, h₂]
        exact parseChars_escaped (by decide) rest
      rw [if_neg h₂]
      by_cases h₃ : c = '\n'
      · rw [if_pos h₃, h₃]
        exact parseChars_escaped (by decide) rest
      rw [if_neg h₃]
      by_cases h₄ : c = '\r'
      · rw [if_pos h₄, h₄]
        exact parseChars_escaped (by decide) rest
      rw [if_neg h₄]
      by_cases h₅ : c = '\t'
      · rw [if_pos h₅, h₅]
        exact parseChars_escaped (by decide) rest
      rw [if_neg h₅]
      have hlow : c.toNat < 0x20 → charUnits c = [UInt16.ofNat c.toNat] :=
        fun h => by rw [charUnits, if_pos (by omega)]
      by_cases h₆ : c.toNat = 8
      · rw [if_pos h₆, hlow (by omega), h₆]
        exact parseChars_escaped (by decide) rest
      rw [if_neg h₆]
      by_cases h₇ : c.toNat = 12
      · rw [if_pos h₇, hlow (by omega), h₇]
        exact parseChars_escaped (by decide) rest
      rw [if_neg h₇]
      by_cases h₈ : c.toNat < 0x20
      · rw [if_pos h₈, parseChars_unicodeEscape (by omega), hlow h₈]
        rfl
      · rw [if_neg h₈]
        exact parseChars_plain h₁ h₂ h₈ rest

/-- **A written string is read back.** -/
theorem parseChars_quote_append (s : Units) (rest : Text) :
    parseChars ((codePoints s).flatMap CodePoint.quote ++ '"' :: rest) = some (s, rest) := by
  have hpoints : ∀ ps : List CodePoint, parseChars (ps.flatMap CodePoint.quote ++ '"' :: rest) =
      some (ps.flatMap CodePoint.units, rest) := by
    intro ps
    induction ps with
    | nil => rfl
    | cons p ps ih =>
        rw [List.flatMap_cons, List.append_assoc, parseChars_quote, ih]
        rfl
  rw [hpoints, codePoints_units]

/-- No line break is written inside a string. -/
theorem newline_not_mem_quote (s : Units) : '\n' ∉ quote s := by
  have hhex : ∀ n, n < 16 → hexDigit n ≠ '\n' := by
    intro n hn
    have hall : ∀ i : Fin 16, hexDigit i ≠ '\n' := by decide
    exact hall ⟨n, hn⟩
  have hescape : ∀ n, '\n' ∉ unicodeEscape n := by
    intro n hmem
    simp only [unicodeEscape, List.mem_cons, List.not_mem_nil, or_false] at hmem
    rcases hmem with h | h | h | h | h | h
    · exact absurd h (by decide)
    · exact absurd h (by decide)
    · exact hhex _ (by omega) h.symm
    · exact hhex _ (by omega) h.symm
    · exact hhex _ (by omega) h.symm
    · exact hhex _ (by omega) h.symm
  have hpoint : ∀ p : CodePoint, '\n' ∉ p.quote := by
    intro p
    cases p with
    | lone u => exact hescape u.toNat
    | char c =>
        show '\n' ∉ quoteChar c
        unfold quoteChar
        split_ifs with h₁ h₂ h₃ h₄ h₅ h₆ h₇ h₈
        all_goals first
          | exact hescape _
          | decide
          | exact fun hmem => h₃ (List.mem_singleton.mp hmem).symm
  simp only [quote, List.mem_cons, List.mem_append, List.mem_flatMap, not_or, List.not_mem_nil,
    not_false_eq_true, and_true]
  refine ⟨⟨by decide, ?_⟩, by decide⟩
  rintro ⟨p, _, hp⟩
  exact hpoint p hp

/-! ## What is written as an object -/

/-- A member of an object, given its value's text. -/
def memberText (m : Units × Text) : Text := quote m.1 ++ ':' :: m.2

/-- The members of an object between its braces. -/
def objectText (members : List (Units × Text)) : Text :=
  '{' :: [','].intercalate (members.map memberText) ++ ['}']

variable {round : Rat → JsNumber}

variable (round) in
/-- A text is read as a value wherever a member may end. -/
def Reads (t : Text) (v : Json) : Prop := ∀ fuel sep rest, sep = ',' ∨ sep = '}' →
  parseValue round (fuel + 1) (t ++ sep :: rest) = some (v, sep :: rest)

theorem skipSpace_nil : skipSpace [] = [] := rfl

theorem skipSpace_cons {c : Char} (h : isJsonSpace c = false) (t : Text) :
    skipSpace (c :: t) = c :: t := by
  rw [skipSpace, List.dropWhile_cons, if_neg (by simp [h])]

theorem quote_append (s : Units) (t : Text) : quote s ++ t =
    '"' :: ((codePoints s).flatMap CodePoint.quote ++ '"' :: t) := by
  simp [quote]

theorem reads_quote (s : Units) : Reads round (quote s) (.string s) := by
  intro fuel sep rest _
  rw [quote_append, parseValue, skipSpace_cons (by decide)]
  show (parseChars _).map _ = _
  rw [parseChars_quote_append]
  rfl

/-- A positive number is written without a leading zero. -/
theorem head_ofNat (n : Nat) (h : 0 < n) : (ofNat n).head? ≠ some '0' := by
  induction n using Nat.strongRecOn with
  | ind n ih =>
      by_cases hlt : n < 10
      · rw [ofNat, Nat.toDigits_of_lt_base hlt]
        have hall : ∀ i : Fin 10, 0 < i.val → [i.val.digitChar].head? ≠ some '0' := by decide
        exact hall ⟨n, hlt⟩ h
      · have hdiv : 0 < n / 10 := by omega
        rw [ofNat, Nat.toDigits_of_base_le (by omega) (by omega), List.head?_append]
        have hne : (Nat.toDigits 10 (n / 10)).head? ≠ none := by
          rw [ne_eq, List.head?_eq_none_iff]
          exact Nat.toDigits_ne_nil
        obtain ⟨c, hc⟩ := Option.ne_none_iff_exists'.mp hne
        rw [hc, Option.some_or, ← hc]
        exact ih (n / 10) (by omega) hdiv

/-- The digits of a number are all of the digits before something else. -/
theorem takeWhile_ofNat (n : Nat) {rest : Text} (h : ∀ c ∈ rest.head?, c.isDigit = false) :
    (ofNat n ++ rest).takeWhile Char.isDigit = ofNat n ∧
      (ofNat n ++ rest).dropWhile Char.isDigit = rest := by
  have hall : ∀ c ∈ ofNat n, c.isDigit = true := fun c hc => isDigit_of_mem_ofNat hc
  rw [List.takeWhile_append_of_pos hall, List.dropWhile_append_of_pos hall]
  cases rest with
  | nil => exact ⟨List.append_nil _, rfl⟩
  | cons c rest =>
      have hc := h c rfl
      rw [List.takeWhile_cons, List.dropWhile_cons, if_neg (by simp [hc]), if_neg (by simp [hc])]
      exact ⟨List.append_nil _, rfl⟩

/-- What may follow a number that has neither a fraction nor an exponent. -/
def EndsNumber (rest : Text) : Prop :=
  ∀ c ∈ rest.head?, c.isDigit = false ∧ c ≠ '.' ∧ c ≠ 'e' ∧ c ≠ 'E'

theorem parseFraction_none {rest : Text} (h : EndsNumber rest) :
    parseFraction rest = some ([], rest) := by
  rw [parseFraction]
  rintro t rfl
  exact (h '.' rfl).2.1 rfl

theorem parseExponent_none {rest : Text} (h : EndsNumber rest) :
    parseExponent rest = some (0, rest) := by
  cases rest with
  | nil => rfl
  | cons c rest =>
      obtain ⟨_, _, he, hE⟩ := h c rfl
      have hexponent : ¬ (c = 'e' ∨ c = 'E') := not_or.mpr ⟨he, hE⟩
      exact if_neg hexponent

theorem parseNumber_ofNat (n : Nat) {rest : Text} (h : EndsNumber rest) :
    parseNumber round (ofNat n ++ rest) = some (round n, rest) := by
  obtain ⟨htake, hdrop⟩ := takeWhile_ofNat n fun c hc => (h c hc).1
  have hsign : (match ofNat n ++ rest with
      | '-' :: t => (true, t)
      | t => (false, t)) = (false, ofNat n ++ rest) := by
    cases hn : ofNat n with
    | nil => exact absurd hn (ofNat_ne_nil n)
    | cons c t =>
        have hc : c.isDigit = true := isDigit_of_mem_ofNat (by rw [hn]; simp)
        have hne : c ≠ '-' := by rintro rfl; exact absurd hc (by decide)
        rw [List.cons_append]
        split
        · rename_i heq
          injection heq with heq _
          exact absurd heq hne
        · rfl
  have hzero : ¬ ((ofNat n).length ≠ 1 ∧ (ofNat n).head? = some '0') := by
    rintro ⟨hlen, hhead⟩
    by_cases hn : n = 0
    · rw [hn] at hlen
      exact hlen (by decide)
    · exact head_ofNat n (by omega) hhead
  unfold parseNumber
  rw [hsign]
  simp only [htake, hdrop, parseFraction_none h]
  rw [if_neg ?_]
  · have hvalue : Nat.ofDigitChars 10 (ofNat n) 0 = n := Nat.ofDigitChars_ten_toDigits
    simp [hvalue, parseExponent_none h]
  · simpa [ofNat_ne_nil] using hzero

/-- A separator ends a number. -/
theorem endsNumber_of_sep {sep : Char} (h : sep = ',' ∨ sep = '}') (rest : Text) :
    EndsNumber (sep :: rest) := by
  intro c hc
  obtain rfl : sep = c := Option.some.inj hc
  rcases h with rfl | rfl
  · decide
  · decide

theorem reads_ofNat (n : Nat) : Reads round (ofNat n) (.number (round n)) := by
  intro fuel sep rest hsep
  have hnum := @parseNumber_ofNat round n _ (endsNumber_of_sep hsep rest)
  cases hn : ofNat n with
  | nil => exact absurd hn (ofNat_ne_nil n)
  | cons c t =>
      have hc : c.isDigit = true := isDigit_of_mem_ofNat (by rw [hn]; simp)
      rw [hn] at hnum
      have hne : ∀ d : Char, d.isDigit = false → c ≠ d := by
        rintro d hd rfl
        rw [hc] at hd
        exact absurd hd (by simp)
      have hspace : isJsonSpace c = false := by
        simp [isJsonSpace, hne ' ' (by decide), hne '\t' (by decide), hne '\n' (by decide),
          hne '\r' (by decide)]
      rw [List.cons_append] at hnum ⊢
      rw [parseValue, skipSpace_cons hspace]
      -- the value is none of the other kinds, which begin otherwise
      split
      · rename_i heq
        injection heq with heq _
        exact absurd heq (hne 'n' (by decide))
      · rename_i heq
        injection heq with heq _
        exact absurd heq (hne 't' (by decide))
      · rename_i heq
        injection heq with heq _
        exact absurd heq (hne 'f' (by decide))
      · rename_i heq
        injection heq with heq _
        exact absurd heq (hne '"' (by decide))
      · rename_i heq
        injection heq with heq _
        exact absurd heq (hne '[' (by decide))
      · rename_i heq
        injection heq with heq _
        exact absurd heq (hne '{' (by decide))
      · rw [hnum]
        rfl

/-- One member, and what comes after its value. -/
theorem parseMembers_cons {k : Units} {t : Text} {v : Json} (h : Reads round t v) (fuel : Nat)
    {sep : Char} (hsep : sep = ',' ∨ sep = '}') (rest : Text) :
    parseMembers round (fuel + 2) (memberText (k, t) ++ sep :: rest) =
      if sep = ',' then (parseMembers round (fuel + 1) rest).map (fun r => ((k, v) :: r.1, r.2))
      else some ([(k, v)], rest) := by
  have hspace : isJsonSpace sep = false := by rcases hsep with rfl | rfl <;> decide
  rw [parseMembers, memberText, List.append_assoc, quote_append, skipSpace_cons (by decide)]
  show (match parseChars ((codePoints k).flatMap CodePoint.quote ++ '"' :: (':' :: t ++ sep :: rest))
    with | none => _ | some (key, t) => _) = _
  rw [parseChars_quote_append]
  dsimp only
  rw [List.cons_append, skipSpace_cons (by decide)]
  show (match parseValue round (fuel + 1) (t ++ sep :: rest) with
    | none => _ | some (v, t) => _) = _
  rw [h fuel sep rest hsep]
  dsimp only
  rw [skipSpace_cons hspace]
  rcases hsep with rfl | rfl
  · rfl
  · rfl

/-- A member whose value's text is read. -/
structure Member (round : Rat → JsNumber) where
  key : Units
  text : Text
  value : Json
  reads : Reads round text value

/-- The text and the value of a member under its key. -/
def Member.written (m : Member round) : Units × Text := (m.key, m.text)

def Member.read (m : Member round) : Units × Json := (m.key, m.value)

theorem parseMembers_append (ms : List (Member round)) (hne : ms ≠ []) (fuel : Nat) (rest : Text) :
    parseMembers round (fuel + ms.length + 1)
        ([','].intercalate (ms.map (memberText ∘ Member.written)) ++ '}' :: rest) =
      some (ms.map Member.read, rest) := by
  induction ms with
  | nil => exact absurd rfl hne
  | cons m ms ih =>
      have hfuel : fuel + (m :: ms).length + 1 = fuel + ms.length + 2 := by
        rw [List.length_cons]
        omega
      rw [hfuel]
      cases ms with
      | nil =>
          rw [List.map_cons, List.map_nil, List.intercalate_singleton]
          exact (parseMembers_cons m.reads _ (.inr rfl) rest).trans rfl
      | cons m' ms =>
          rw [List.map_cons, List.intercalate_cons_of_ne_nil (by simp), List.append_assoc,
            List.append_assoc, List.cons_append, List.nil_append]
          refine (parseMembers_cons m.reads _ (.inl rfl) _).trans ?_
          rw [if_pos rfl, ih (by simp)]
          rfl

theorem parseValue_objectText (ms : List (Member round)) (fuel : Nat) (rest : Text) :
    parseValue round (fuel + ms.length + 2) (objectText (ms.map Member.written) ++ rest) =
      some (.object (ms.map Member.read), rest) := by
  rw [objectText, List.map_map, parseValue, List.cons_append, List.cons_append, List.append_assoc,
    skipSpace_cons (by decide)]
  cases ms with
  | nil => rfl
  | cons m ms =>
      have hmembers := parseMembers_append (m :: ms) (by simp) fuel rest
      -- a member begins with a quote, so the object is not empty
      have hstart : ∃ t, [','].intercalate ((m :: ms).map (memberText ∘ Member.written)) ++
          (['}'] ++ rest) = '"' :: t := by
        cases ms with
        | nil =>
            rw [List.map_cons, List.map_nil, List.intercalate_singleton]
            exact ⟨_, rfl⟩
        | cons m' ms =>
            rw [List.map_cons, List.intercalate_cons_of_ne_nil (by simp)]
            exact ⟨_, rfl⟩
      obtain ⟨t, ht⟩ := hstart
      rw [List.cons_append, List.nil_append] at ht
      rw [List.cons_append, List.nil_append, ht]
      rw [ht] at hmembers
      show (match skipSpace ('"' :: t) with
        | '}' :: t => some (Json.object [], t)
        | t => (parseMembers round (fuel + (m :: ms).length + 1) t).map
            (fun r : List (Units × Json) × Text => (Json.object r.1, r.2))) = _
      rw [skipSpace_cons (by decide)]
      show (parseMembers round (fuel + (m :: ms).length + 1) ('"' :: t)).map _ = _
      rw [hmembers]
      rfl

theorem length_le_objectText (ms : List (Member round)) :
    ms.length ≤ (objectText (ms.map Member.written)).length := by
  have hlist : ∀ l : List Text, (∀ t ∈ l, 1 ≤ t.length) →
      l.length ≤ ([','].intercalate l).length := by
    intro l
    induction l with
    | nil => simp
    | cons t l ih =>
        intro hl
        have ht := hl t (by simp)
        have hrest := ih fun t' ht' => hl t' (List.mem_cons_of_mem t ht')
        cases l with
        | nil => simpa using ht
        | cons t' l =>
            rw [List.intercalate_cons_of_ne_nil (by simp)]
            simp only [List.length_append, List.length_cons] at hrest ⊢
            omega
  have hmembers := hlist ((ms.map Member.written).map memberText) (by
    intro t ht
    obtain ⟨m, _, rfl⟩ := List.mem_map.mp ht
    simp [memberText, quote])
  rw [objectText, List.length_append, List.length_cons]
  simp only [List.length_map] at hmembers
  omega

/-- **A written object is read back**, member by member, whatever space follows it. -/
theorem parseJson_objectText_space (ms : List (Member round)) {space : Text}
    (hspace : skipSpace space = []) :
    parseJson round (objectText (ms.map Member.written) ++ space) =
      some (.object (ms.map Member.read)) := by
  have hlen := length_le_objectText ms
  have hlen' : 2 ≤ (objectText (ms.map Member.written)).length := by
    rw [objectText, List.length_append, List.length_cons]
    simp
  obtain ⟨fuel, hfuel⟩ : ∃ fuel,
      2 * (objectText (ms.map Member.written) ++ space).length + 1 = fuel + ms.length + 2 := by
    rw [List.length_append]
    exact ⟨2 * ((objectText (ms.map Member.written)).length + space.length) - 1 - ms.length, by omega⟩
  rw [parseJson, hfuel, parseValue_objectText]
  exact if_pos hspace

theorem parseJson_objectText (ms : List (Member round)) :
    parseJson round (objectText (ms.map Member.written)) = some (.object (ms.map Member.read)) := by
  have h := parseJson_objectText_space ms skipSpace_nil
  rwa [List.append_nil] at h

end Caveat.Js
