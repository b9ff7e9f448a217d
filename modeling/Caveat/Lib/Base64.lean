import Mathlib.Logic.Basic

/-!
# Base64

Three bytes make four characters, and what is left over is padded with `=`. The decoder reads both
alphabets and skips every other character, padding included.
-/

namespace Caveat.Lib.Base64

/-- The character of a value below 64. -/
def charOf (n : Nat) : Char :=
  if n < 26 then Char.ofNat (n + 65)
  else if n < 52 then Char.ofNat (n + 71)
  else if n < 62 then Char.ofNat (n - 4)
  else if n = 62 then '+' else '/'

def valueOf (c : Char) : Option Nat :=
  if 'A' ≤ c ∧ c ≤ 'Z' then some (c.toNat - 65)
  else if 'a' ≤ c ∧ c ≤ 'z' then some (c.toNat - 71)
  else if '0' ≤ c ∧ c ≤ '9' then some (c.toNat + 4)
  else if c = '+' ∨ c = '-' then some 62
  else if c = '/' ∨ c = '_' then some 63
  else none

/-- The values of the characters that three bytes, two bytes and one byte make. -/
def encode : List UInt8 → List Char
  | [] => []
  | [a] => [charOf (a.toNat / 4), charOf (a.toNat % 4 * 16), '=', '=']
  | [a, b] =>
      [charOf (a.toNat / 4), charOf (a.toNat % 4 * 16 + b.toNat / 16), charOf (b.toNat % 16 * 4),
        '=']
  | a :: b :: c :: rest =>
      charOf (a.toNat / 4) :: charOf (a.toNat % 4 * 16 + b.toNat / 16) ::
        charOf (b.toNat % 16 * 4 + c.toNat / 64) :: charOf (c.toNat % 64) :: encode rest

/-- The bytes of six-bit values; a single value left over makes none. -/
def bytesOf : List Nat → List UInt8
  | v₀ :: v₁ :: v₂ :: v₃ :: rest =>
      UInt8.ofNat (v₀ * 4 + v₁ / 16) :: UInt8.ofNat (v₁ % 16 * 16 + v₂ / 4) ::
        UInt8.ofNat (v₂ % 4 * 64 + v₃) :: bytesOf rest
  | [v₀, v₁, v₂] => [UInt8.ofNat (v₀ * 4 + v₁ / 16), UInt8.ofNat (v₁ % 16 * 16 + v₂ / 4)]
  | [v₀, v₁] => [UInt8.ofNat (v₀ * 4 + v₁ / 16)]
  | _ => []

def decode (text : List Char) : List UInt8 := bytesOf (text.filterMap valueOf)

theorem valueOf_charOf {n : Nat} (h : n < 64) : valueOf (charOf n) = some n := by
  have hall : ∀ i : Fin 64, valueOf (charOf i) = some i.val := by decide
  exact hall ⟨n, h⟩

theorem charOf_isAscii {n : Nat} (h : n < 64) : (charOf n).toNat < 128 := by
  have hall : ∀ i : Fin 64, (charOf i).toNat < 128 := by decide
  exact hall ⟨n, h⟩

theorem uint8_ofNat_eq {n : Nat} {a : UInt8} (h : n = a.toNat) : UInt8.ofNat n = a := by
  rw [h, UInt8.ofNat_toNat]

/-- **Decoding inverts encoding.** -/
theorem decode_encode (bytes : List UInt8) : decode (encode bytes) = bytes := by
  unfold decode
  induction bytes using encode.induct with
  | case1 => rfl
  | case2 a =>
      have ha := a.toNat_lt
      have h₁ := valueOf_charOf (show a.toNat / 4 < 64 by omega)
      have h₂ := valueOf_charOf (show a.toNat % 4 * 16 < 64 by omega)
      have hpad : valueOf '=' = none := by decide
      simp only [encode, List.filterMap_cons, h₁, h₂, hpad, List.filterMap_nil, bytesOf]
      rw [uint8_ofNat_eq (show a.toNat / 4 * 4 + a.toNat % 4 * 16 / 16 = a.toNat by omega)]
  | case3 a b =>
      have ha := a.toNat_lt
      have hb := b.toNat_lt
      have h₁ := valueOf_charOf (show a.toNat / 4 < 64 by omega)
      have h₂ := valueOf_charOf (show a.toNat % 4 * 16 + b.toNat / 16 < 64 by omega)
      have h₃ := valueOf_charOf (show b.toNat % 16 * 4 < 64 by omega)
      have hpad : valueOf '=' = none := by decide
      simp only [encode, List.filterMap_cons, h₁, h₂, h₃, hpad, List.filterMap_nil, bytesOf]
      rw [uint8_ofNat_eq (a := a) (by omega), uint8_ofNat_eq (a := b) (by omega)]
  | case4 a b c rest ih =>
      have ha := a.toNat_lt
      have hb := b.toNat_lt
      have hc := c.toNat_lt
      have h₁ := valueOf_charOf (show a.toNat / 4 < 64 by omega)
      have h₂ := valueOf_charOf (show a.toNat % 4 * 16 + b.toNat / 16 < 64 by omega)
      have h₃ := valueOf_charOf (show b.toNat % 16 * 4 + c.toNat / 64 < 64 by omega)
      have h₄ := valueOf_charOf (show c.toNat % 64 < 64 by omega)
      simp only [encode, List.filterMap_cons, h₁, h₂, h₃, h₄, bytesOf, ih]
      rw [uint8_ofNat_eq (a := a) (by omega), uint8_ofNat_eq (a := b) (by omega),
        uint8_ofNat_eq (a := c) (by omega)]

/-- What holds of the characters of the alphabet and of the padding holds of all that is written. -/
theorem of_mem_encode {P : Char → Prop} (hchar : ∀ n < 64, P (charOf n)) (hpad : P '=')
    (bytes : List UInt8) : ∀ ch ∈ encode bytes, P ch := by
  induction bytes using encode.induct with
  | case1 => simp [encode]
  | case2 a =>
      have ha := a.toNat_lt
      have h₁ := hchar (a.toNat / 4) (by omega)
      have h₂ := hchar (a.toNat % 4 * 16) (by omega)
      simp [encode, h₁, h₂, hpad]
  | case3 a b =>
      have ha := a.toNat_lt
      have hb := b.toNat_lt
      have h₁ := hchar (a.toNat / 4) (by omega)
      have h₂ := hchar (a.toNat % 4 * 16 + b.toNat / 16) (by omega)
      have h₃ := hchar (b.toNat % 16 * 4) (by omega)
      simp [encode, h₁, h₂, h₃, hpad]
  | case4 a b c rest ih =>
      have ha := a.toNat_lt
      have hb := b.toNat_lt
      have hc := c.toNat_lt
      have h₁ := hchar (a.toNat / 4) (by omega)
      have h₂ := hchar (a.toNat % 4 * 16 + b.toNat / 16) (by omega)
      have h₃ := hchar (b.toNat % 16 * 4 + c.toNat / 64) (by omega)
      have h₄ := hchar (c.toNat % 64) (by omega)
      simpa [encode, h₁, h₂, h₃, h₄] using ih

/-- Only ASCII characters are written. -/
theorem encode_isAscii (bytes : List UInt8) : ∀ ch ∈ encode bytes, ch.toNat < 128 :=
  of_mem_encode (P := fun ch => ch.toNat < 128) (fun _ h => charOf_isAscii h) (by decide) bytes

end Caveat.Lib.Base64
