import Caveat.Js.Json

/-!
# Components of a URI, and the path of a URL

`encodeURIComponent` writes what it may not keep as the bytes of its UTF-8, and `decodeURIComponent`
reads bytes only if they are UTF-8. The path of a URL is read segment by segment, and a segment that is
one or two dots stands for none of its own.
-/

namespace Caveat.Js

/-! ## Components -/

/-- What `encodeURIComponent` keeps. -/
def isUnreserved (c : Char) : Bool := c.isAlphanum || "-_.!~*'()".toList.contains c

def upperHex (n : Nat) : Char := if n < 10 then Char.ofNat (n + 48) else Char.ofNat (n + 55)

def percentByte (b : UInt8) : Text := ['%', upperHex (b.toNat / 16), upperHex (b.toNat % 16)]

def encodeComponentChar (c : Char) : Text :=
  if isUnreserved c then [c] else (String.utf8EncodeChar c).flatMap percentByte

/-- `encodeURIComponent`, which throws at a lone surrogate. -/
def encodeURIComponent (s : Units) : Option Text :=
  if isWellFormed s then
    some ((codePoints s).flatMap (fun p =>
      match p with
      | .char c => encodeComponentChar c
      | .lone _ => []))
  else none

/-- The bytes of a text in which bytes may be escaped. -/
def unescapeBytes : Text → Option Bytes
  | [] => some []
  | '%' :: high :: low :: rest => do
      let h ← hexValue high
      let l ← hexValue low
      let bytes ← unescapeBytes rest
      return UInt8.ofNat (h * 16 + l) :: bytes
  | c :: rest =>
      if c = '%' then none else (unescapeBytes rest).map (String.utf8EncodeChar c ++ ·)

/-- `decodeURIComponent`, which throws where the bytes are no UTF-8. -/
def decodeURIComponent (t : Text) : Option Units := do
  let bytes ← unescapeBytes t
  let text := decodeUtf8 bytes
  if encodeUtf8 text = bytes then some (unitsOf text) else none

/-! ### What is written is read -/

theorem hexValue_upperHex {n : Nat} (h : n < 16) : hexValue (upperHex n) = some n := by
  have hall : ∀ i : Fin 16, hexValue (upperHex i) = some i.val := by decide
  exact hall ⟨n, h⟩

theorem unescapeBytes_percent (b : UInt8) (rest : Text) :
    unescapeBytes (percentByte b ++ rest) = (unescapeBytes rest).map (b :: ·) := by
  have hb := b.toNat_lt
  have hhigh := hexValue_upperHex (show b.toNat / 16 < 16 by omega)
  have hlow := hexValue_upperHex (show b.toNat % 16 < 16 by omega)
  have hbyte : UInt8.ofNat (b.toNat / 16 * 16 + b.toNat % 16) = b := by
    rw [show b.toNat / 16 * 16 + b.toNat % 16 = b.toNat by omega, UInt8.ofNat_toNat]
  rw [percentByte]
  show unescapeBytes ('%' :: _ :: _ :: rest) = _
  rw [unescapeBytes]
  simp only [hhigh, hlow, Option.bind_eq_bind, Option.bind_some, hbyte]
  cases unescapeBytes rest with
  | none => rfl
  | some bytes => rfl

theorem unescapeBytes_percents (bytes : Bytes) (rest : Text) :
    unescapeBytes (bytes.flatMap percentByte ++ rest) =
      (unescapeBytes rest).map (bytes ++ ·) := by
  induction bytes with
  | nil =>
      rw [List.flatMap_nil, List.nil_append]
      cases unescapeBytes rest with
      | none => rfl
      | some more => rfl
  | cons b bytes ih =>
      rw [List.flatMap_cons, List.append_assoc, unescapeBytes_percent, ih]
      cases unescapeBytes rest with
      | none => rfl
      | some more => rfl

theorem unescapeBytes_plain {c : Char} (h : c ≠ '%') (rest : Text) :
    unescapeBytes (c :: rest) = (unescapeBytes rest).map (String.utf8EncodeChar c ++ ·) := by
  rw [unescapeBytes]
  · rw [if_neg h]
  · intro _ _ _ heq
    exact absurd heq h

theorem ne_percent_of_isUnreserved {c : Char} (h : isUnreserved c = true) : c ≠ '%' := by
  rintro rfl
  exact absurd h (by decide)

theorem unescapeBytes_encode (t : Text) (rest : Text) :
    unescapeBytes (t.flatMap encodeComponentChar ++ rest) =
      (unescapeBytes rest).map (encodeUtf8 t ++ ·) := by
  induction t with
  | nil =>
      rw [List.flatMap_nil, List.nil_append]
      cases unescapeBytes rest with
      | none => rfl
      | some more => rfl
  | cons c t ih =>
      have hcons : encodeUtf8 (c :: t) = String.utf8EncodeChar c ++ encodeUtf8 t :=
        List.flatMap_cons
      rw [List.flatMap_cons, List.append_assoc, hcons, encodeComponentChar]
      by_cases hkeep : isUnreserved c = true
      · rw [if_pos hkeep, List.singleton_append,
          unescapeBytes_plain (ne_percent_of_isUnreserved hkeep), ih, Option.map_map]
        cases unescapeBytes rest with
        | none => rfl
        | some more => simp
      · rw [if_neg hkeep, unescapeBytes_percents, ih, Option.map_map]
        cases unescapeBytes rest with
        | none => rfl
        | some more => simp

/-- The characters of a component, written one by one. -/
theorem encodeURIComponent_unitsOf (t : Text) :
    encodeURIComponent (unitsOf t) = some (t.flatMap encodeComponentChar) := by
  have hwell : isWellFormed (unitsOf t) = true := by
    simp [isWellFormed, codePoints_unitsOf]
  rw [encodeURIComponent, if_pos hwell, codePoints_unitsOf, List.flatMap_map]

/-- **A component is read back.** -/
theorem decodeURIComponent_encode (t : Text) :
    decodeURIComponent (t.flatMap encodeComponentChar) = some (unitsOf t) := by
  have hbytes : unescapeBytes (t.flatMap encodeComponentChar) = some (encodeUtf8 t) := by
    have hall := unescapeBytes_encode t []
    rw [List.append_nil] at hall
    rw [hall, unescapeBytes, Option.map_some, List.append_nil]
  rw [decodeURIComponent, hbytes]
  simp only [Option.bind_eq_bind, Option.bind_some, decodeUtf8_encodeUtf8, if_pos]

/-! ## Paths -/

/-- A single-dot segment. -/
def isSingleDot (segment : Text) : Bool :=
  [".", "%2e", "%2E"].any (fun s => s.toList = segment)

/-- A double-dot segment. -/
def isDoubleDot (segment : Text) : Bool :=
  ["..", ".%2e", ".%2E", "%2e.", "%2E.", "%2e%2e", "%2e%2E", "%2E%2e", "%2E%2E"].any
    (fun s => s.toList = segment)

/-- The path percent-encode set. -/
def inPathSet (c : Char) : Bool :=
  c.toNat < 0x20 || 0x7e < c.toNat || " \"#<>?^\x60\x7b\x7d".toList.contains c

def pathChar (c : Char) : Text :=
  if inPathSet c then (String.utf8EncodeChar c).flatMap percentByte else [c]

/-- A segment is at its end, which a slash makes or nothing. -/
def endSegment (path : List Text) (segment : Text) (slash : Bool) : List Text :=
  if isDoubleDot segment then if slash then path.dropLast else path.dropLast ++ [[]]
  else if isSingleDot segment then if slash then path else path ++ [[]]
  else path ++ [segment]

/-- The path state, for `http` and `https`. -/
def pathState (path : List Text) (buffer : Text) : Text → List Text
  | [] => endSegment path buffer false
  | c :: rest =>
      if c = '/' ∨ c = '\\' then pathState (endSegment path buffer true) [] rest
      else if c = '?' ∨ c = '#' then endSegment path buffer false
      else pathState path (buffer ++ pathChar c) rest

/-- The path start state. -/
def parsePath : Text → List Text
  | [] => pathState [] [] []
  | c :: rest => if c = '/' ∨ c = '\\' then pathState [] [] rest else pathState [] [] (c :: rest)

/-- `url.pathname`, of what follows the host. -/
def urlPathname (t : Text) : Text := (parsePath t).flatMap ('/' :: ·)

/-- A character that a path keeps within a segment. -/
def isPathPlain (c : Char) : Bool := !inPathSet c && !("/\\?#".toList.contains c)

theorem pathState_plain {segment : Text} (h : ∀ c ∈ segment, isPathPlain c = true)
    (path : List Text) (buffer rest : Text) :
    pathState path buffer (segment ++ rest) = pathState path (buffer ++ segment) rest := by
  induction segment generalizing buffer with
  | nil => rw [List.nil_append, List.append_nil]
  | cons c segment ih =>
      have hc := h c List.mem_cons_self
      simp only [isPathPlain, Bool.and_eq_true, Bool.not_eq_true'] at hc
      obtain ⟨hset, hsep⟩ := hc
      have hne : c ≠ '/' ∧ c ≠ '\\' ∧ c ≠ '?' ∧ c ≠ '#' := by simpa using hsep
      rw [List.cons_append, pathState, if_neg (by simp [hne]), if_neg (by simp [hne]), pathChar,
        hset, if_neg (by simp), ih fun d hd => h d (List.mem_cons_of_mem _ hd), List.append_assoc,
        List.singleton_append]

theorem toNat_of_isUnreserved {c : Char} (h : isUnreserved c = true) : c.toNat < 128 := by
  rw [isUnreserved, Bool.or_eq_true] at h
  rcases h with h | h
  · have hranges : ((decide (c.val ≥ 'A'.val ∧ c.val ≤ 'Z'.val) ||
        (decide (c.val ≥ 'a'.val) && decide (c.val ≤ 'z'.val))) ||
        (decide (c.val ≥ '0'.val) && decide (c.val ≤ '9'.val))) = true := h
    simp only [Bool.or_eq_true, Bool.and_eq_true, decide_eq_true_eq, ge_iff_le,
      UInt32.le_iff_toNat_le] at hranges
    have hc : c.val.toNat = c.toNat := rfl
    have hZ : 'Z'.val.toNat = 90 := rfl
    have hz : 'z'.val.toNat = 122 := rfl
    have h9 : '9'.val.toNat = 57 := rfl
    omega
  · have hall : ∀ d ∈ "-_.!~*'()".toList, decide (d.toNat < 128) = true :=
      List.all_eq_true.mp rfl
    exact of_decide_eq_true (hall c (by simpa using h))

theorem isPathPlain_of_isUnreserved {c : Char} (h : isUnreserved c = true) :
    isPathPlain c = true := by
  have hall : ∀ i : Fin 128,
      isUnreserved (Char.ofNat i) = true → isPathPlain (Char.ofNat i) = true := by decide +kernel
  have hc := hall ⟨c.toNat, toNat_of_isUnreserved h⟩
  rw [Char.ofNat_toNat] at hc
  exact hc h

/-- The escaped form of a component is kept within a segment. -/
theorem isPathPlain_of_component {t : Text} {c : Char} (h : c ∈ t.flatMap encodeComponentChar) :
    isPathPlain c = true := by
  obtain ⟨d, _, hc⟩ := List.mem_flatMap.mp h
  rw [encodeComponentChar] at hc
  split at hc
  · rename_i hkeep
    obtain rfl := List.mem_singleton.mp hc
    exact isPathPlain_of_isUnreserved hkeep
  · obtain ⟨b, _, hc⟩ := List.mem_flatMap.mp hc
    have hb := b.toNat_lt
    have hdigit : ∀ i : Fin 16, isPathPlain (upperHex i) = true := by decide
    simp only [percentByte, List.mem_cons, List.not_mem_nil, or_false] at hc
    rcases hc with rfl | rfl | rfl
    · decide
    · exact hdigit ⟨b.toNat / 16, by omega⟩
    · exact hdigit ⟨b.toNat % 16, by omega⟩

/-- One or two dots are read from the segments that stand for them, however they are written. -/
theorem decode_of_isSingleDot {segment : Text} (h : isSingleDot segment = true) :
    decodeURIComponent segment = some (unitsOf ['.']) := by
  have hall : ∀ s ∈ [".", "%2e", "%2E"],
      decodeURIComponent s.toList = some (unitsOf ['.']) := by decide +kernel
  obtain ⟨s, hs, heq⟩ := List.any_eq_true.mp h
  rw [← of_decide_eq_true heq]
  exact hall s hs

theorem decode_of_isDoubleDot {segment : Text} (h : isDoubleDot segment = true) :
    decodeURIComponent segment = some (unitsOf ['.', '.']) := by
  have hall : ∀ s ∈ ["..", ".%2e", ".%2E", "%2e.", "%2E.", "%2e%2e", "%2e%2E", "%2E%2e", "%2E%2E"],
      decodeURIComponent s.toList = some (unitsOf ['.', '.']) := by decide +kernel
  obtain ⟨s, hs, heq⟩ := List.any_eq_true.mp h
  rw [← of_decide_eq_true heq]
  exact hall s hs

end Caveat.Js
