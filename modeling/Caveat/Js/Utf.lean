import Caveat.Js.Text

/-!
# Code units and bytes

A JavaScript string is a list of UTF-16 code units, and surrogates may stand alone in it. Read by
code points it is a list of characters and lone surrogates. Writing it as UTF-8 replaces the lone
surrogates, and reading bytes as UTF-8 replaces what is no character.
-/

namespace Caveat.Js

abbrev Bytes := List UInt8

/-- A JavaScript string as it is. -/
abbrev Units := List UInt16

instance lawfulBEqUnits : LawfulBEq Units := inferInstance

def isHighSurrogate (u : UInt16) : Bool := 0xd800 ≤ u.toNat && u.toNat < 0xdc00

def isLowSurrogate (u : UInt16) : Bool := 0xdc00 ≤ u.toNat && u.toNat < 0xe000

inductive CodePoint where
  | char (c : Char)
  | lone (u : UInt16)
deriving DecidableEq

/-- A code unit on its own. -/
def unitPoint (u : UInt16) : CodePoint :=
  if isHighSurrogate u || isLowSurrogate u then .lone u else .char (Char.ofNat u.toNat)

/-- The character of a surrogate pair. -/
def pairChar (high low : UInt16) : Char :=
  Char.ofNat (0x10000 + (high.toNat - 0xd800) * 0x400 + (low.toNat - 0xdc00))

def codePoints : Units → List CodePoint
  | [] => []
  | [u] => [unitPoint u]
  | u :: v :: s =>
      if isHighSurrogate u && isLowSurrogate v then .char (pairChar u v) :: codePoints s
      else unitPoint u :: codePoints (v :: s)

/-- The code units of a character. -/
def charUnits (c : Char) : Units :=
  if c.toNat < 0x10000 then [UInt16.ofNat c.toNat]
  else [UInt16.ofNat (0xd800 + (c.toNat - 0x10000) / 0x400),
    UInt16.ofNat (0xdc00 + (c.toNat - 0x10000) % 0x400)]

def CodePoint.units : CodePoint → Units
  | .char c => charUnits c
  | .lone u => [u]

/-- A code unit by its character. -/
def unitOf (c : Char) : UInt16 := UInt16.ofNat c.toNat

/-- `/[A-Za-z]/` of one code unit. -/
def isAsciiLetter (u : UInt16) : Bool :=
  (65 ≤ u.toNat && u.toNat ≤ 90) || (97 ≤ u.toNat && u.toNat ≤ 122)

/-- The string of some characters. -/
def unitsOf (t : Text) : Units := t.flatMap charUnits

/-- `String.prototype.isWellFormed`. -/
def isWellFormed (s : Units) : Bool :=
  (codePoints s).all (fun p => match p with | .char _ => true | .lone _ => false)

/-! ## Code points and code units -/

theorem toNat_ofNat {n : Nat} (h : n.isValidChar) : (Char.ofNat n).toNat = n := by
  rw [Char.toNat, Char.ofNat, dif_pos h]
  exact UInt32.toNat_ofNatLT

theorem charUnits_ofNat {u : UInt16} (h : isHighSurrogate u = false) (h' : isLowSurrogate u = false) :
    charUnits (Char.ofNat u.toNat) = [u] := by
  have hu := u.toNat_lt
  have hvalid : u.toNat.isValidChar := by
    simp only [isHighSurrogate, isLowSurrogate, Bool.and_eq_false_iff, decide_eq_false_iff_not] at h h'
    unfold Nat.isValidChar
    omega
  rw [charUnits, toNat_ofNat hvalid, if_pos (by omega), UInt16.ofNat_toNat]

theorem unitPoint_units (u : UInt16) : (unitPoint u).units = [u] := by
  unfold unitPoint
  by_cases h : (isHighSurrogate u || isLowSurrogate u) = true
  · rw [if_pos h]
    rfl
  · rw [if_neg h]
    rw [Bool.not_eq_true, Bool.or_eq_false_iff] at h
    exact charUnits_ofNat h.1 h.2

theorem charUnits_pairChar {u v : UInt16} (hu : isHighSurrogate u = true)
    (hv : isLowSurrogate v = true) : charUnits (pairChar u v) = [u, v] := by
  simp only [isHighSurrogate, isLowSurrogate, Bool.and_eq_true, decide_eq_true_eq] at hu hv
  have hvalid : (0x10000 + (u.toNat - 0xd800) * 0x400 + (v.toNat - 0xdc00)).isValidChar := by
    unfold Nat.isValidChar
    omega
  rw [pairChar, charUnits, toNat_ofNat hvalid, if_neg (by omega)]
  have hhigh : 0xd800 + (0x10000 + (u.toNat - 0xd800) * 0x400 + (v.toNat - 0xdc00) - 0x10000) / 0x400
      = u.toNat := by omega
  have hlow : 0xdc00 + (0x10000 + (u.toNat - 0xd800) * 0x400 + (v.toNat - 0xdc00) - 0x10000) % 0x400
      = v.toNat := by omega
  rw [hhigh, hlow, UInt16.ofNat_toNat, UInt16.ofNat_toNat]

/-- **The code points of a string are its code units.** -/
theorem codePoints_units (s : Units) : (codePoints s).flatMap CodePoint.units = s := by
  induction s using codePoints.induct with
  | case1 => rfl
  | case2 u => rw [codePoints, List.flatMap_cons, unitPoint_units]; rfl
  | case3 u v s hpair ih =>
      rw [codePoints, if_pos hpair, List.flatMap_cons, ih]
      rw [Bool.and_eq_true] at hpair
      show charUnits (pairChar u v) ++ s = _
      rw [charUnits_pairChar hpair.1 hpair.2]
      rfl
  | case4 u v s hpair ih =>
      rw [codePoints, if_neg hpair, List.flatMap_cons, ih, unitPoint_units]
      rfl

/-- A well-formed string is the string of its characters. -/
theorem exists_text_of_isWellFormed {s : Units} (h : isWellFormed s = true) :
    ∃ t : Text, codePoints s = t.map CodePoint.char ∧ s = unitsOf t := by
  have hpoints : ∃ t : Text, codePoints s = t.map CodePoint.char := by
    unfold isWellFormed at h
    generalize codePoints s = ps at h
    induction ps with
    | nil => exact ⟨[], rfl⟩
    | cons p ps ih =>
        rw [List.all_cons, Bool.and_eq_true] at h
        obtain ⟨t, rfl⟩ := ih h.2
        cases p with
        | char c => exact ⟨c :: t, rfl⟩
        | lone u => exact absurd h.1 (by simp)
  obtain ⟨t, ht⟩ := hpoints
  refine ⟨t, ht, ?_⟩
  have hs := codePoints_units s
  rw [ht, List.flatMap_map] at hs
  exact hs.symm

theorem charUnits_append_points (c : Char) (s : Units) :
    codePoints (charUnits c ++ s) = .char c :: codePoints s := by
  have hvalid : c.toNat < 0xd800 ∨ 0xdfff < c.toNat ∧ c.toNat < 0x110000 := c.valid
  have hback : Char.ofNat c.toNat = c := Char.ofNat_toNat c
  unfold charUnits
  by_cases hsmall : c.toNat < 0x10000
  · rw [if_pos hsmall, List.singleton_append]
    have hu : (UInt16.ofNat c.toNat).toNat = c.toNat := UInt16.toNat_ofNat_of_lt hsmall
    have hhigh : isHighSurrogate (UInt16.ofNat c.toNat) = false := by
      simp only [isHighSurrogate, hu, Bool.and_eq_false_iff, decide_eq_false_iff_not]
      omega
    have hlow : isLowSurrogate (UInt16.ofNat c.toNat) = false := by
      simp only [isLowSurrogate, hu, Bool.and_eq_false_iff, decide_eq_false_iff_not]
      omega
    have hpoint : unitPoint (UInt16.ofNat c.toNat) = .char c := by
      rw [unitPoint, hhigh, hlow, hu, hback]
      rfl
    cases s with
    | nil => exact congrArg (fun p => [p]) hpoint
    | cons v s => rw [codePoints, hhigh, Bool.false_and, if_neg (by simp), hpoint]
  · rw [if_neg hsmall]
    have hsize : UInt16.size = 65536 := rfl
    have hu : (UInt16.ofNat (0xd800 + (c.toNat - 0x10000) / 0x400)).toNat =
        0xd800 + (c.toNat - 0x10000) / 0x400 := UInt16.toNat_ofNat_of_lt (by omega)
    have hv : (UInt16.ofNat (0xdc00 + (c.toNat - 0x10000) % 0x400)).toNat =
        0xdc00 + (c.toNat - 0x10000) % 0x400 := UInt16.toNat_ofNat_of_lt (by omega)
    have hpair : (isHighSurrogate (UInt16.ofNat (0xd800 + (c.toNat - 0x10000) / 0x400)) &&
        isLowSurrogate (UInt16.ofNat (0xdc00 + (c.toNat - 0x10000) % 0x400))) = true := by
      simp only [isHighSurrogate, isLowSurrogate, hu, hv, Bool.and_eq_true, decide_eq_true_eq]
      omega
    have hsum : 0x10000 + (0xd800 + (c.toNat - 0x10000) / 0x400 - 0xd800) * 0x400 +
        (0xdc00 + (c.toNat - 0x10000) % 0x400 - 0xdc00) = c.toNat := by omega
    show codePoints (_ :: _ :: s) = _
    rw [codePoints, if_pos hpair, pairChar, hu, hv, hsum, hback]

/-- **The code points of the string of some characters** are the characters. -/
theorem codePoints_unitsOf (t : Text) : codePoints (unitsOf t) = t.map CodePoint.char := by
  induction t with
  | nil => rfl
  | cons c t ih =>
      rw [unitsOf, List.flatMap_cons, charUnits_append_points, List.map_cons, ← ih]
      rfl

theorem unitsOf_inj {t t' : Text} (h : unitsOf t = unitsOf t') : t = t' := by
  have hpoints := congrArg codePoints h
  rw [codePoints_unitsOf, codePoints_unitsOf] at hpoints
  exact List.map_injective_iff.mpr (fun c c' hc => CodePoint.char.inj hc) hpoints

/-- Only a NUL is written with the code unit 0. -/
theorem zero_not_mem_unitsOf {t : Text} (h : Char.ofNat 0 ∉ t) : (0 : UInt16) ∉ unitsOf t := by
  intro hmem
  obtain ⟨c, hc, hzero⟩ := List.mem_flatMap.mp hmem
  have hvalid : c.toNat < 0x110000 := by
    have : c.toNat < 0xd800 ∨ 0xdfff < c.toNat ∧ c.toNat < 0x110000 := c.valid
    omega
  have hnat : ∀ n : Nat, n < 65536 → (0 : UInt16) = UInt16.ofNat n → n = 0 := by
    intro n hn heq
    have hback : (UInt16.ofNat n).toNat = n := UInt16.toNat_ofNat_of_lt hn
    rw [← hback, ← heq]
    rfl
  unfold charUnits at hzero
  split at hzero
  · rename_i hsmall
    have hcode := hnat c.toNat hsmall (List.mem_singleton.mp hzero)
    have hnul : c = Char.ofNat 0 := by rw [← hcode, Char.ofNat_toNat]
    exact h (hnul ▸ hc)
  · rcases List.mem_cons.mp hzero with hzero | hzero
    · have := hnat _ (by omega) hzero
      omega
    · have := hnat _ (by omega) (List.mem_singleton.mp hzero)
      omega

/-! ## UTF-8 -/

def encodeUtf8 (t : Text) : Bytes := t.flatMap String.utf8EncodeChar

/-- `Buffer.from(s, 'utf-8')`; a lone surrogate becomes U+FFFD. -/
def toUtf8 (s : Units) : Bytes :=
  (codePoints s).flatMap (fun p => match p with
    | .char c => String.utf8EncodeChar c
    | .lone _ => [0xef, 0xbf, 0xbd])

/-- The bytes that may follow a first byte in place of its second. -/
def secondByte (b : UInt8) : Nat × Nat :=
  if b = 0xe0 then (0xa0, 0xbf)
  else if b = 0xed then (0x80, 0x9f)
  else if b = 0xf0 then (0x90, 0xbf)
  else if b = 0xf4 then (0x80, 0x8f)
  else (0x80, 0xbf)

/-- How many bytes a first byte announces. -/
def announced (b : UInt8) : Nat :=
  if 0xc2 ≤ b.toNat ∧ b.toNat ≤ 0xdf then 2
  else if 0xe0 ≤ b.toNat ∧ b.toNat ≤ 0xef then 3
  else if 0xf0 ≤ b.toNat ∧ b.toNat ≤ 0xf4 then 4
  else 1

/-- How many bytes at the start one U+FFFD stands for. -/
def brokenLength : Bytes → Nat
  | b :: c :: rest =>
      let (low, high) := secondByte b
      if 2 ≤ announced b ∧ low ≤ c.toNat ∧ c.toNat ≤ high then
        2 + ((rest.take (announced b - 2)).takeWhile (fun d => 0x80 ≤ d.toNat && d.toNat ≤ 0xbf)).length
      else 1
  | _ => 1

/-- Read at most so many characters. -/
def decodeChars : Nat → Bytes → Text
  | 0, _ => []
  | _, [] => []
  | fuel + 1, b :: bs =>
      match (b :: bs).toByteArray.utf8DecodeChar? 0 with
      | some c => c :: decodeChars fuel ((b :: bs).drop c.utf8Size)
      | none => '\uFFFD' :: decodeChars fuel ((b :: bs).drop (brokenLength (b :: bs)))

/-- `buffer.toString('utf-8')`. -/
def decodeUtf8 (bytes : Bytes) : Text := decodeChars bytes.length bytes

theorem decodeChars_encodeUtf8 (t : Text) (fuel : Nat) (h : t.length ≤ fuel) :
    decodeChars fuel (encodeUtf8 t) = t := by
  induction t generalizing fuel with
  | nil => cases fuel <;> rfl
  | cons c t ih =>
      obtain ⟨fuel, rfl⟩ : ∃ n, fuel = n + 1 := ⟨fuel - 1, by simp at h; omega⟩
      rw [encodeUtf8, List.flatMap_cons]
      have hsize := String.length_utf8EncodeChar c
      cases henc : String.utf8EncodeChar c with
      | nil =>
          have hpos := Char.utf8Size_pos c
          rw [henc] at hsize
          simp only [List.length_nil] at hsize
          omega
      | cons b bs =>
          have hdecode : (b :: (bs ++ encodeUtf8 t)).toByteArray.utf8DecodeChar? 0 = some c := by
            rw [← List.cons_append, ← henc, List.toByteArray_append]
            exact ByteArray.utf8DecodeChar?_utf8EncodeChar_append
          rw [List.cons_append, decodeChars]
          show (match (b :: (bs ++ encodeUtf8 t)).toByteArray.utf8DecodeChar? 0 with
            | some c => _ | none => _) = _
          rw [hdecode]
          have hdrop : (b :: (bs ++ encodeUtf8 t)).drop c.utf8Size = encodeUtf8 t := by
            rw [← List.cons_append, ← henc, ← hsize, List.drop_left]
          show c :: decodeChars fuel ((b :: (bs ++ encodeUtf8 t)).drop c.utf8Size) = _
          rw [hdrop, ih fuel (by simp at h; omega)]

theorem length_le_encodeUtf8 (t : Text) : t.length ≤ (encodeUtf8 t).length := by
  induction t with
  | nil => exact Nat.le_refl _
  | cons c t ih =>
      have hpos := Char.utf8Size_pos c
      rw [encodeUtf8, List.flatMap_cons, List.length_append, String.length_utf8EncodeChar,
        List.length_cons]
      unfold encodeUtf8 at ih
      omega

/-- **Characters written as UTF-8 are read back.** -/
theorem decodeUtf8_encodeUtf8 (t : Text) : decodeUtf8 (encodeUtf8 t) = t :=
  decodeChars_encodeUtf8 t _ (length_le_encodeUtf8 t)

theorem encodeUtf8_inj {t t' : Text} (h : encodeUtf8 t = encodeUtf8 t') : t = t' := by
  rw [← decodeUtf8_encodeUtf8 t, h, decodeUtf8_encodeUtf8]

theorem toUtf8_of_points {s : Units} {t : Text} (h : codePoints s = t.map CodePoint.char) :
    toUtf8 s = encodeUtf8 t := by
  rw [toUtf8, h, List.flatMap_map]
  rfl

theorem decodeUtf8_toUtf8 (t : Text) : decodeUtf8 (toUtf8 (unitsOf t)) = t := by
  rw [toUtf8_of_points (codePoints_unitsOf t), decodeUtf8_encodeUtf8]

/-- Well-formed strings with the same bytes are the same. -/
theorem toUtf8_inj {s s' : Units} (h : isWellFormed s = true) (h' : isWellFormed s' = true)
    (heq : toUtf8 s = toUtf8 s') : s = s' := by
  obtain ⟨t, ht, hs⟩ := exists_text_of_isWellFormed h
  obtain ⟨t', ht', hs'⟩ := exists_text_of_isWellFormed h'
  rw [toUtf8_of_points ht, toUtf8_of_points ht'] at heq
  have := congrArg decodeUtf8 heq
  rw [decodeUtf8_encodeUtf8, decodeUtf8_encodeUtf8] at this
  rw [hs, hs', this]

end Caveat.Js
