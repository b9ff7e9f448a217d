import Caveat.Js.Utf
import Caveat.Lib.Separated
import Mathlib.Data.List.Basic

/-!
# Lines of UTF-8 text

What a fatal decoder accepts, and how the lines of a text lie in its bytes: the byte 10 stands for
a line break and nothing else, so a cut of the bytes cuts the lines.
-/

namespace Caveat.Js

/-- The encoding mark. -/
def bom : Bytes := [0xef, 0xbb, 0xbf]

/-- `new TextDecoder('utf8', { fatal: true }).decode(bytes)`: a leading mark is dropped. -/
def decodeFatal (bytes : Bytes) : Option Text :=
  let rest := if bytes.take 3 = bom then bytes.drop 3 else bytes
  let text := decodeUtf8 rest
  if encodeUtf8 text = rest then some text else none

/-- The bytes up to the last line break, and what follows it. -/
def splitTorn (bytes : Bytes) : Option (Bytes × Bytes) :=
  let torn := (bytes.reverse.takeWhile (· ≠ 10)).reverse
  if torn.length = bytes.length then none
  else some (bytes.take (bytes.length - torn.length), torn)

/-- Lines, each with its line break. -/
def unlines (lines : List Text) : Text := lines.flatMap (fun l => l ++ ['\n'])

/-! ## Decoding -/

theorem encodeUtf8_append (t t' : Text) : encodeUtf8 (t ++ t') = encodeUtf8 t ++ encodeUtf8 t' :=
  List.flatMap_append

/-- A decoded text was encoded, with or without a mark. -/
theorem decodeFatal_cases {bytes : Bytes} {t : Text} (h : decodeFatal bytes = some t) :
    (bytes.take 3 ≠ bom ∧ bytes = encodeUtf8 t) ∨ bytes = bom ++ encodeUtf8 t := by
  unfold decodeFatal at h
  dsimp only at h
  by_cases hmark : bytes.take 3 = bom
  · rw [if_pos hmark] at h
    obtain ⟨htext, ht⟩ := Option.ite_none_right_eq_some.mp h
    rw [Option.some.inj ht] at htext
    refine .inr ?_
    rw [htext, ← hmark, List.take_append_drop]
  · rw [if_neg hmark] at h
    obtain ⟨htext, ht⟩ := Option.ite_none_right_eq_some.mp h
    rw [Option.some.inj ht] at htext
    exact .inl ⟨hmark, htext.symm⟩

theorem decodeFatal_encodeUtf8 {t : Text} (h : (encodeUtf8 t).take 3 ≠ bom) :
    decodeFatal (encodeUtf8 t) = some t := by
  unfold decodeFatal
  dsimp only
  rw [if_neg h, decodeUtf8_encodeUtf8, if_pos rfl]

theorem decodeFatal_bom (t : Text) : decodeFatal (bom ++ encodeUtf8 t) = some t := by
  have htake : (bom ++ encodeUtf8 t).take 3 = bom := List.take_left' rfl
  have hdrop : (bom ++ encodeUtf8 t).drop 3 = encodeUtf8 t := List.drop_left' rfl
  unfold decodeFatal
  dsimp only
  rw [if_pos htake, hdrop, decodeUtf8_encodeUtf8, if_pos rfl]

/-! ## Bytes of ASCII characters -/

/-- The byte of an ASCII character is in the encoding of no other character. -/
theorem eq_of_mem_encode {c d : Char} (hd : d.toNat < 128)
    (h : UInt8.ofNat d.toNat ∈ String.utf8EncodeChar c) : c = d := by
  have hbytes : ∀ n : Nat, n < 256 → UInt8.ofNat d.toNat = UInt8.ofNat n → n = d.toNat := by
    intro n hn heq
    have hback : (UInt8.ofNat n).toNat = n := UInt8.toNat_ofNat_of_lt hn
    have hback' : (UInt8.ofNat d.toNat).toNat = d.toNat :=
      UInt8.toNat_ofNat_of_lt (Nat.lt_trans hd (by decide))
    rw [← hback, ← heq, hback']
  unfold String.utf8EncodeChar at h
  dsimp only at h
  generalize hv : c.val.toNat = v at h
  split_ifs at h
  · have hcode := hbytes v (by omega) (List.mem_singleton.mp h)
    rw [← Char.ofNat_toNat c, Char.toNat, hv, hcode, Char.ofNat_toNat]
  -- every byte of a longer encoding has its top bit
  all_goals
    have htop : ∀ n : Nat, 128 ≤ n → n < 256 → UInt8.ofNat d.toNat ≠ UInt8.ofNat n := by
      intro n hle hlt heq
      have := hbytes n hlt heq
      omega
    exfalso
    simp only [List.mem_cons, List.not_mem_nil, or_false] at h
  · rcases h with h | h <;> exact htop _ (by omega) (by omega) h
  · rcases h with h | h | h <;> exact htop _ (by omega) (by omega) h
  · rcases h with h | h | h | h <;> exact htop _ (by omega) (by omega) h

theorem encode_ascii {d : Char} (hd : d.toNat < 128) :
    String.utf8EncodeChar d = [UInt8.ofNat d.toNat] := by
  unfold String.utf8EncodeChar
  dsimp only
  rw [if_pos (show d.val.toNat ≤ 127 from Nat.le_of_lt_succ hd)]
  rfl

/-- **The byte of an ASCII character splits the text** that it is found in. -/
theorem encodeUtf8_split {d : Char} (hd : d.toNat < 128) {t : Text} {x y : Bytes}
    (h : encodeUtf8 t = x ++ UInt8.ofNat d.toNat :: y) :
    ∃ t₁ t₂, t = t₁ ++ d :: t₂ ∧ x = encodeUtf8 t₁ ∧ y = encodeUtf8 t₂ := by
  induction t generalizing x with
  | nil => exact absurd h (by simp [encodeUtf8])
  | cons c t ih =>
      rw [encodeUtf8, List.flatMap_cons] at h
      by_cases hc : c = d
      · rw [hc, encode_ascii hd] at h
        cases x with
        | nil => exact ⟨[], t, by rw [hc]; rfl, rfl, (List.cons.inj h).2.symm⟩
        | cons b x =>
            obtain ⟨rfl, hrest⟩ := List.cons.inj h
            obtain ⟨t₁, t₂, rfl, rfl, rfl⟩ := ih hrest
            refine ⟨d :: t₁, t₂, by rw [hc]; rfl, ?_, rfl⟩
            rw [encodeUtf8, encodeUtf8, List.flatMap_cons, encode_ascii hd]
            rfl
      · -- the byte is not one of this character
        have hnot : UInt8.ofNat d.toNat ∉ String.utf8EncodeChar c :=
          fun hmem => hc (eq_of_mem_encode hd hmem)
        rcases List.append_eq_append_iff.mp h with ⟨a, rfl, hrest⟩ | ⟨a, ha, hrest⟩
        · obtain ⟨t₁, t₂, rfl, rfl, rfl⟩ := ih hrest
          exact ⟨c :: t₁, t₂, rfl, rfl, rfl⟩
        · cases a with
          | nil =>
              rw [List.append_nil] at ha
              rw [List.nil_append] at hrest
              obtain ⟨t₁, t₂, rfl, hx, rfl⟩ := @ih [] hrest.symm
              refine ⟨c :: t₁, t₂, rfl, ?_, rfl⟩
              show x = encodeUtf8 (c :: t₁)
              rw [encodeUtf8, List.flatMap_cons, ha, ← encodeUtf8, ← hx, List.append_nil]
          | cons b a =>
              obtain ⟨rfl, -⟩ := List.cons.inj hrest
              exact absurd (by rw [ha]; simp) hnot

theorem newline_not_mem_encode {t : Text} (h : '\n' ∉ t) : (10 : UInt8) ∉ encodeUtf8 t := by
  intro hmem
  obtain ⟨c, hc, hbyte⟩ := List.mem_flatMap.mp hmem
  rw [eq_of_mem_encode (d := '\n') (by decide) hbyte] at hc
  exact h hc

/-! ## Lines -/

@[simp] theorem unlines_nil : unlines [] = [] := rfl

@[simp] theorem unlines_cons (l : Text) (lines : List Text) :
    unlines (l :: lines) = l ++ '\n' :: unlines lines := by
  rw [unlines, List.flatMap_cons, List.append_assoc]
  rfl

theorem unlines_append (lines lines' : List Text) :
    unlines (lines ++ lines') = unlines lines ++ unlines lines' :=
  List.flatMap_append

theorem splitOn_unlines {lines : List Text} (h : ∀ l ∈ lines, '\n' ∉ l) :
    (unlines lines).splitOn '\n' = lines ++ [[]] :=
  Lib.splitOn_terminated h

/-- A text that ends with a line break is the lines before its line breaks. -/
theorem exists_lines {t : Text} (h : ∃ t₁, t = t₁ ++ ['\n']) :
    ∃ lines, lines ≠ [] ∧ (∀ l ∈ lines, '\n' ∉ l) ∧ t = unlines lines := by
  obtain ⟨t₁, rfl⟩ := h
  refine ⟨t₁.splitOn '\n', List.splitOn_ne_nil '\n' t₁, ?_, ?_⟩
  · intro l hl hmem
    exact (Lib.mem_of_mem_splitOn l hl _ hmem).2 rfl
  · have hjoin : ∀ parts : List Text, parts ≠ [] →
        ['\n'].intercalate parts ++ ['\n'] = unlines parts := by
      intro parts
      induction parts with
      | nil => exact fun hne => absurd rfl hne
      | cons l parts ih =>
          intro _
          cases parts with
          | nil => simp
          | cons l' parts =>
              rw [List.intercalate_cons_of_ne_nil (by simp), List.append_assoc, ih (by simp)]
              simp
    rw [← hjoin _ (List.splitOn_ne_nil '\n' t₁), List.intercalate_splitOn]

/-- **A cut of the bytes is a cut of the lines**, and a part of the next line. -/
theorem exists_take_of_cut {lines : List Text} (h : ∀ l ∈ lines, '\n' ∉ l) {p : Bytes}
    (hp : p <+: encodeUtf8 (unlines lines)) :
    ∃ k torn, k ≤ lines.length ∧ p = encodeUtf8 (unlines (lines.take k)) ++ torn ∧
      (10 : UInt8) ∉ torn := by
  induction lines generalizing p with
  | nil =>
      rw [unlines_nil] at hp
      exact ⟨0, [], Nat.le_refl _, List.prefix_nil.mp hp, List.not_mem_nil⟩
  | cons l lines ih =>
      have hl : (10 : UInt8) ∉ encodeUtf8 l := newline_not_mem_encode (h l List.mem_cons_self)
      have hline : encodeUtf8 (unlines (l :: lines)) =
          encodeUtf8 l ++ 10 :: encodeUtf8 (unlines lines) := by
        rw [unlines_cons, encodeUtf8_append]
        rfl
      rw [hline] at hp
      by_cases hlen : p.length ≤ (encodeUtf8 l).length
      · -- the cut is inside the first line
        have htorn : p <+: encodeUtf8 l :=
          List.prefix_of_prefix_length_le hp (List.prefix_append _ _) hlen
        exact ⟨0, p, Nat.zero_le _, rfl, fun hmem => hl (htorn.subset hmem)⟩
      · have hwhole : encodeUtf8 l ++ [10] <+: p := by
          refine List.prefix_of_prefix_length_le ?_ hp ?_
          · exact ⟨encodeUtf8 (unlines lines), by simp⟩
          · rw [List.length_append, List.length_singleton]
            omega
        obtain ⟨p', rfl⟩ := hwhole
        have hrest : p' <+: encodeUtf8 (unlines lines) := by
          rw [List.append_assoc, List.singleton_append, List.prefix_append_right_inj,
            List.cons_prefix_cons] at hp
          exact hp.2
        obtain ⟨k, torn, hk, rfl, htorn⟩ := ih (fun l' hl' => h l' (List.mem_cons_of_mem l hl')) hrest
        refine ⟨k + 1, torn, by simpa using hk, ?_, htorn⟩
        rw [List.take_succ_cons, unlines_cons, encodeUtf8_append, List.append_assoc,
          List.append_assoc]
        rfl

/-! ## The torn part -/

theorem splitTorn_append {torn : Bytes} (h : (10 : UInt8) ∉ torn) (w : Bytes) :
    splitTorn (w ++ 10 :: torn) = some (w ++ [10], torn) := by
  have htake : ((w ++ 10 :: torn).reverse.takeWhile (· ≠ 10)).reverse = torn := by
    rw [List.reverse_append, List.reverse_cons, List.append_assoc,
      List.takeWhile_append_of_pos (by
        intro b hb
        have hne : b ≠ 10 := by
          rintro rfl
          exact h (List.mem_reverse.mp hb)
        simpa using hne)]
    simp
  unfold splitTorn
  rw [htake]
  dsimp only
  rw [if_neg (by simp; omega), show (w ++ 10 :: torn) = (w ++ [10]) ++ torn by simp]
  congr 2
  exact List.take_left' (by simp; omega)

theorem splitTorn_cases {bytes w torn : Bytes} (h : splitTorn bytes = some (w, torn)) :
    bytes = w ++ torn ∧ (10 : UInt8) ∉ torn ∧ ∃ w', w = w' ++ [10] := by
  have hnot : (10 : UInt8) ∉ (bytes.reverse.takeWhile (· ≠ 10)).reverse := by
    intro hmem
    have hne := List.mem_takeWhile_imp (List.mem_reverse.mp hmem)
    exact absurd hne (by simp)
  have hsplit := List.takeWhile_append_dropWhile (p := (· ≠ (10 : UInt8))) (l := bytes.reverse)
  unfold splitTorn at h
  dsimp only at h
  generalize htorn : (bytes.reverse.takeWhile (· ≠ 10)) = rest at h hnot hsplit
  split at h
  · exact absurd h (by simp)
  · rename_i hlen
    obtain ⟨rfl, rfl⟩ := Prod.mk.inj (Option.some.inj h)
    have hbytes : bytes = (bytes.reverse.dropWhile (· ≠ 10)).reverse ++ rest.reverse := by
      rw [← List.reverse_append, hsplit, List.reverse_reverse]
    have htake : bytes.take (bytes.length - rest.reverse.length) =
        (bytes.reverse.dropWhile (· ≠ 10)).reverse := by
      conv_lhs => rw [hbytes]
      exact List.take_left' (by
        have := congrArg List.length hsplit
        simp only [List.length_append, List.length_reverse] at this ⊢
        omega)
    refine ⟨by rw [htake]; exact hbytes, hnot, ?_⟩
    rw [htake]
    cases hdrop : bytes.reverse.dropWhile (· ≠ 10) with
    | nil =>
        rw [hdrop, List.append_nil] at hsplit
        exact absurd (by rw [hsplit, List.reverse_reverse]) hlen
    | cons b bs =>
        have hb : b = 10 := by
          have hhead := List.head?_dropWhile_not (fun b : UInt8 => decide (b ≠ 10)) bytes.reverse
          rw [hdrop] at hhead
          simpa using hhead
        exact ⟨bs.reverse, by rw [hb, List.reverse_cons]⟩

end Caveat.Js
