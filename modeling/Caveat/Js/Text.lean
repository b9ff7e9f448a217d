import Mathlib.Data.List.DropRight
import Mathlib.Data.Nat.Digits.Defs

/-!
# Text as JavaScript sees it

A text is a list of characters. `isSpace` is the class that `String.prototype.trim`, `\s` and
`Number.parseInt` share: ECMAScript `WhiteSpace` together with `LineTerminator`.
-/

namespace Caveat.Js

abbrev Text := List Char

/-- `\n`, `\r`, U+2028 and U+2029: what `.` does not match in a regular expression. -/
def isLineTerminator (c : Char) : Bool :=
  c == '\n' || c == '\r' || c.val == 0x2028 || c.val == 0x2029

/-- ECMAScript `WhiteSpace` or `LineTerminator`. -/
def isSpace (c : Char) : Bool :=
  c == ' ' || c == '\t' || c.val == 0x0b || c.val == 0x0c || isLineTerminator c ||
    c.val == 0xa0 || c.val == 0x1680 || (0x2000 ≤ c.val && c.val ≤ 0x200a) ||
    c.val == 0x202f || c.val == 0x205f || c.val == 0x3000 || c.val == 0xfeff

def trimStart (s : Text) : Text := s.dropWhile isSpace

def trimEnd (s : Text) : Text := s.rdropWhile isSpace

/-- `String.prototype.trim`. -/
def trim (s : Text) : Text := trimEnd (trimStart s)

/-- The sign and the rest, as `Number.parseInt` splits them. -/
def splitSign : Text → Bool × Text
  | '-' :: t => (true, t)
  | '+' :: t => (false, t)
  | t => (false, t)

/--
`Number.parseInt(s, 10)`, with `none` for `NaN`: leading white space and one sign are skipped
and the longest run of digits is read. Anything after it is ignored.
-/
def parseInt (s : Text) : Option Int :=
  let (negative, rest) := splitSign (trimStart s)
  let digits := rest.takeWhile Char.isDigit
  if digits.isEmpty then none
  else
    let n : Nat := Nat.ofDigitChars 10 digits 0
    some (if negative then -(n : Int) else n)

/-- `String(n)` for a natural number. -/
def ofNat (n : Nat) : Text := Nat.toDigits 10 n

theorem isDigit_of_mem_ofNat {n : Nat} {c : Char} (h : c ∈ ofNat n) : c.isDigit = true :=
  Nat.isDigit_of_mem_toDigits (by decide) (by decide) h

theorem ofNat_ne_nil (n : Nat) : ofNat n ≠ [] := Nat.toDigits_ne_nil

theorem isSpace_eq_false_of_isDigit {c : Char} (h : c.isDigit = true) : isSpace c = false := by
  simp only [Char.isDigit, Bool.and_eq_true, decide_eq_true_eq, ge_iff_le] at h
  have h0 : 48 ≤ c.val.toNat := UInt32.le_iff_toNat_le.mp h.1
  have h9 : c.val.toNat ≤ 57 := UInt32.le_iff_toNat_le.mp h.2
  have hne : ∀ n : UInt32, n.toNat < 48 ∨ 57 < n.toNat → c.val ≠ n := by
    rintro n hn rfl
    omega
  have hchar : ∀ d : Char, d.val.toNat < 48 ∨ 57 < d.val.toNat → c ≠ d :=
    fun d hd he => hne d.val hd (congrArg Char.val he)
  have hlow : ¬ (0x2000 : UInt32) ≤ c.val := by
    intro hle
    have : (0x2000 : UInt32).toNat ≤ c.val.toNat := UInt32.le_iff_toNat_le.mp hle
    have h2000 : (0x2000 : UInt32).toNat = 8192 := rfl
    omega
  simp [isSpace, isLineTerminator, hlow, hne 0x0b (by decide), hne 0x0c (by decide),
    hne 0x2028 (by decide), hne 0x2029 (by decide), hne 0xa0 (by decide), hne 0x1680 (by decide),
    hne 0x202f (by decide), hne 0x205f (by decide), hne 0x3000 (by decide),
    hne 0xfeff (by decide), hchar ' ' (by decide), hchar '\t' (by decide),
    hchar '\n' (by decide), hchar '\r' (by decide)]

theorem trimStart_eq_self {s : Text} (h : ∀ c ∈ s, isSpace c = false) : trimStart s = s := by
  cases s with
  | nil => rfl
  | cons c s => simp [trimStart, List.dropWhile, h c (by simp)]

theorem trimEnd_eq_self {s : Text} (h : ∀ c ∈ s, isSpace c = false) : trimEnd s = s := by
  rw [trimEnd, List.rdropWhile_eq_self_iff]
  intro hne
  simp [h _ (List.getLast_mem hne)]

theorem trim_eq_self {s : Text} (h : ∀ c ∈ s, isSpace c = false) : trim s = s := by
  rw [trim, trimStart_eq_self h, trimEnd_eq_self h]

theorem splitSign_of_digit {c : Char} {s : Text} (h : c.isDigit = true) :
    splitSign (c :: s) = (false, c :: s) := by
  unfold splitSign
  split
  · rename_i heq; injection heq with hc _; subst hc; exact absurd h (by decide)
  · rename_i heq; injection heq with hc _; subst hc; exact absurd h (by decide)
  · rfl

/-- A number written in decimal is read back. -/
theorem parseInt_ofNat (n : Nat) : parseInt (ofNat n) = some (n : Int) := by
  have hdig : ∀ c ∈ ofNat n, c.isDigit = true := fun c hc => isDigit_of_mem_ofNat hc
  have hspace : ∀ c ∈ ofNat n, isSpace c = false :=
    fun c hc => isSpace_eq_false_of_isDigit (hdig c hc)
  have htake : (ofNat n).takeWhile Char.isDigit = ofNat n :=
    List.takeWhile_eq_self_iff.mpr hdig
  have hsplit : splitSign (ofNat n) = (false, ofNat n) := by
    cases hs : ofNat n with
    | nil => exact absurd hs (ofNat_ne_nil n)
    | cons c s => exact splitSign_of_digit (hdig c (by rw [hs]; simp))
  unfold parseInt
  rw [trimStart_eq_self hspace, hsplit]
  simp only [htake, List.isEmpty_iff, ofNat_ne_nil, if_false, Bool.false_eq_true]
  exact congrArg some (congrArg Nat.cast Nat.ofDigitChars_ten_toDigits)

theorem ofNat_inj {m n : Nat} : ofNat m = ofNat n ↔ m = n := by
  constructor
  · intro h
    have hparse : parseInt (ofNat m) = parseInt (ofNat n) := by rw [h]
    rw [parseInt_ofNat, parseInt_ofNat] at hparse
    have := Option.some.inj hparse
    omega
  · rintro rfl
    rfl

end Caveat.Js
