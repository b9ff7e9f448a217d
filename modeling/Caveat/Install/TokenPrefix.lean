import Caveat.Install.NodeCodecLaw
import Mathlib.Order.Bounds.Basic

/-!
# The span of a prefix within a string token

What stands between the quotation marks of a JSON string is plain units and escapes, and each of
them is read as one unit. So the beginnings of a token that are tokens themselves are those that cut
no escape, and no two of them are read as the same string.
-/

namespace Caveat.Install

open Js
open Lib (bind_eq_ok)

/-- What `JSON.parse` reads between two quotation marks. -/
inductive TokenReads : Units → Units → Prop
  | nil : TokenReads [] []
  | plain {u : UInt16} {raw s : Units} : u ≠ unitOf '\\' → u ≠ quoteMark → 0x20 ≤ u.toNat →
      TokenReads raw s → TokenReads (u :: raw) (u :: s)
  | escape {e : Units} {v : UInt16} {raw s : Units} :
      unescape e = some v → TokenReads raw s → TokenReads (e ++ raw) (v :: s)

/-! ## Escapes -/

/-- The letter of an escape tells how long it is. -/
theorem unescape_cons {e : Units} {v : UInt16} (h : unescape e = some v) : ∃ x more,
    e = unitOf '\\' :: x :: more ∧ e.length = if x = unitOf 'u' then 6 else 2 := by
  unfold unescape at h
  split at h
  · rename_i u c
    split at h
    · rename_i hu
      exact ⟨c, [], by rw [hu.1], by rw [if_neg hu.2]; rfl⟩
    · cases h
  · rename_i u x a b c d
    split at h
    · rename_i hu
      exact ⟨x, [a, b, c, d], by rw [hu.1], by rw [if_pos hu.2]; rfl⟩
    · cases h
  · cases h

/-- Of two texts that begin with escapes the escapes are the same if the texts are. -/
theorem unescape_append_inj {e e' r r' : Units} {v v' : UInt16} (h : unescape e = some v)
    (h' : unescape e' = some v') (heq : e ++ r = e' ++ r') : e = e' ∧ v = v' ∧ r = r' := by
  obtain ⟨x, more, rfl, hlen⟩ := unescape_cons h
  obtain ⟨x', more', rfl, hlen'⟩ := unescape_cons h'
  have hx : x = x' := (List.cons.inj (List.cons.inj heq).2).1
  rw [hx, ← hlen'] at hlen
  obtain ⟨hsame, hrest⟩ := List.append_inj heq hlen
  rw [hsame, h'] at h
  exact ⟨hsame, (Option.some.inj h).symm, hrest⟩

/-! ## Cutting a token -/

theorem TokenReads.eq_nil {raw s : Units} (h : TokenReads raw s) (hs : s = []) : raw = [] := by
  cases h with
  | nil => rfl
  | plain hb hq hc h => cases hs
  | escape he h => cases hs

theorem TokenReads.append {a b s r : Units} (h : TokenReads a s) (h' : TokenReads b r) :
    TokenReads (a ++ b) (s ++ r) := by
  induction h with
  | nil => exact h'
  | plain hb hq hc h ih => exact .plain hb hq hc ih
  | escape he h ih =>
      rw [List.append_assoc]
      exact .escape he ih

/-- What is left of a token behind a token is a token. The induction is on the first one. -/
theorem TokenReads.cut {a p : Units} (h : TokenReads a p) {b s : Units}
    (hs : TokenReads (a ++ b) s) : ∃ r, s = p ++ r ∧ TokenReads b r := by
  induction h generalizing s with
  | nil => exact ⟨s, rfl, hs⟩
  | @plain u a p hb hq hc h ih =>
      generalize hraw : u :: a ++ b = raw at hs
      cases hs with
      | nil => cases hraw
      | plain hb' hq' hc' hs =>
          obtain ⟨rfl, rfl⟩ := List.cons.inj hraw
          obtain ⟨r, rfl, hr⟩ := ih hs
          exact ⟨r, rfl, hr⟩
      | escape he hs =>
          obtain ⟨x, more, rfl, _⟩ := unescape_cons he
          exact absurd (List.cons.inj hraw).1 hb
  | @escape e v a p he h ih =>
      generalize hraw : e ++ a ++ b = raw at hs
      cases hs with
      | nil =>
          obtain ⟨x, more, rfl, _⟩ := unescape_cons he
          cases hraw
      | plain hb' hq' hc' hs =>
          obtain ⟨x, more, rfl, _⟩ := unescape_cons he
          exact absurd (List.cons.inj hraw).1.symm hb'
      | escape he' hs =>
          rw [List.append_assoc] at hraw
          obtain ⟨_, rfl, rfl⟩ := unescape_append_inj he he' hraw
          obtain ⟨r, rfl, hr⟩ := ih hs
          exact ⟨r, rfl, hr⟩

/-- A token is read as one string. -/
theorem TokenReads.unique {raw s s' : Units} (h : TokenReads raw s) (h' : TokenReads raw s') :
    s = s' := by
  rw [← List.append_nil raw] at h'
  obtain ⟨r, rfl, hr⟩ := h.cut h'
  have hnil : r = [] := by
    generalize hraw : ([] : Units) = raw at hr
    cases hr with
    | nil => rfl
    | plain hb hq hc hr => cases hraw
    | escape he hr =>
        obtain ⟨x, more, rfl, _⟩ := unescape_cons he
        cases hraw
  rw [hnil, List.append_nil]

/-- No two beginnings of a token are read as the same string. -/
theorem TokenReads.take_inj {raw p : Units} {m n : Nat} (hm : m ≤ raw.length) (hn : n ≤ raw.length)
    (h : TokenReads (raw.take m) p) (h' : TokenReads (raw.take n) p) : m = n := by
  have hle : ∀ {m n : Nat}, n ≤ raw.length → m ≤ n → TokenReads (raw.take m) p →
      TokenReads (raw.take n) p → m = n := by
    intro m n hn hmn h h'
    have hsplit : raw.take n = raw.take m ++ (raw.drop m).take (n - m) := by
      rw [← List.take_add, Nat.add_sub_cancel' hmn]
    rw [hsplit] at h'
    obtain ⟨r, hr, hrest⟩ := h.cut h'
    have hnil := hrest.eq_nil (List.self_eq_append_right.mp hr)
    have hlen := congrArg List.length hnil
    rw [List.length_take, List.length_drop, List.length_nil] at hlen
    omega
  rcases Nat.le_total m n with hmn | hmn
  · exact hle hn hmn h h'
  · exact (hle hm hmn h' h).symm

/-! ## The loop -/

theorem prefixUnits_plain {u : UInt16} (hu : u ≠ unitOf '\\') (raw : Units) (fuel missing : Nat) :
    prefixUnits (fuel + 1) (u :: raw) (missing + 1) =
      (do let more ← prefixUnits fuel raw missing
          .ok (1 + more.1, u :: more.2)) := by
  rw [prefixUnits, if_neg hu]

theorem prefixUnits_escape {e : Units} {v : UInt16} (he : unescape e = some v) (raw : Units)
    (fuel missing : Nat) : prefixUnits (fuel + 1) (e ++ raw) (missing + 1) =
      (do let more ← prefixUnits fuel raw missing
          .ok (e.length + more.1, v :: more.2)) := by
  obtain ⟨x, more, rfl, hlen⟩ := unescape_cons he
  have hsize : (if ((x :: more) ++ raw).head? = some (unitOf 'u') then 6 else 2) =
      (unitOf '\\' :: x :: more).length := by
    rw [hlen, List.cons_append, List.head?_cons]
    simp only [Option.some.injEq]
  rw [List.cons_append, prefixUnits, if_pos rfl]
  dsimp only
  rw [hsize, ← List.cons_append, List.take_left, List.drop_left, he]
  rfl

/-- **The loop stops between two units of a token.** The induction is on the token. -/
theorem prefixUnits_token {raw s : Units} (h : TokenReads raw s) {fuel : Nat}
    (hfuel : raw.length ≤ fuel) {k : Nat} (hk : k ≤ s.length) :
    ∃ n, n ≤ raw.length ∧ prefixUnits fuel raw k = .ok (n, s.take k) ∧
      TokenReads (raw.take n) (s.take k) := by
  induction h generalizing fuel k with
  | nil =>
      obtain rfl : k = 0 := Nat.le_zero.mp hk
      exact ⟨0, Nat.le_refl _, by rw [prefixUnits]; rfl, .nil⟩
  | @plain u raw s hb hq hc h ih =>
      cases k with
      | zero => exact ⟨0, Nat.zero_le _, by rw [prefixUnits]; rfl, .nil⟩
      | succ k =>
          rw [List.length_cons] at hfuel hk
          obtain ⟨fuel, rfl⟩ : ∃ m, fuel = m + 1 := ⟨fuel - 1, by omega⟩
          obtain ⟨n, hn, hrun, hreads⟩ := @ih fuel (by omega) k (by omega)
          refine ⟨1 + n, by rw [List.length_cons]; omega, ?_, ?_⟩
          · rw [prefixUnits_plain hb, hrun]
            rfl
          · rw [Nat.add_comm, List.take_succ_cons, List.take_succ_cons]
            exact .plain hb hq hc hreads
  | @escape e v raw s he h ih =>
      cases k with
      | zero => exact ⟨0, Nat.zero_le _, by rw [prefixUnits]; rfl, .nil⟩
      | succ k =>
          rw [List.length_append] at hfuel
          rw [List.length_cons] at hk
          have hpos : 0 < e.length := by
            obtain ⟨x, more, rfl, _⟩ := unescape_cons he
            exact Nat.succ_pos _
          obtain ⟨fuel, rfl⟩ : ∃ m, fuel = m + 1 := ⟨fuel - 1, by omega⟩
          obtain ⟨n, hn, hrun, hreads⟩ := @ih fuel (by omega) k (by omega)
          refine ⟨e.length + n, by rw [List.length_append]; omega, ?_, ?_⟩
          · rw [prefixUnits_escape he, hrun]
            rfl
          · rw [List.take_length_add_append, List.take_succ_cons]
            exact .escape he hreads

/-- A token that is read as a shorter string ends before the loop does. -/
theorem prefixUnits_short {raw s : Units} (h : TokenReads raw s) (fuel : Nat) {k : Nat}
    (hk : s.length < k) : ∃ message, prefixUnits fuel raw k = .error message := by
  induction h generalizing fuel k with
  | nil =>
      obtain ⟨k, rfl⟩ : ∃ m, k = m + 1 := ⟨k - 1, by rw [List.length_nil] at hk; omega⟩
      cases fuel with
      | zero => exact ⟨_, rfl⟩
      | succ fuel => exact ⟨_, rfl⟩
  | @plain u raw s hb hq hc h ih =>
      rw [List.length_cons] at hk
      obtain ⟨k, rfl⟩ : ∃ m, k = m + 1 := ⟨k - 1, by omega⟩
      cases fuel with
      | zero => exact ⟨_, rfl⟩
      | succ fuel =>
          obtain ⟨message, hrun⟩ := ih fuel (Nat.lt_of_succ_lt_succ hk)
          exact ⟨message, by rw [prefixUnits_plain hb, hrun]; rfl⟩
  | @escape e v raw s he h ih =>
      rw [List.length_cons] at hk
      obtain ⟨k, rfl⟩ : ∃ m, k = m + 1 := ⟨k - 1, by omega⟩
      cases fuel with
      | zero => exact ⟨_, rfl⟩
      | succ fuel =>
          obtain ⟨message, hrun⟩ := ih fuel (Nat.lt_of_succ_lt_succ hk)
          exact ⟨message, by rw [prefixUnits_escape he, hrun]; rfl⟩

/-- The span that is found is a beginning of the token that is read as the prefix. -/
theorem jsonPrefixLength_token {raw s : Units} (h : TokenReads raw s) {p : Units} {n : Nat} :
    jsonPrefixLength raw p = .ok n ↔ n ≤ raw.length ∧ TokenReads (raw.take n) p := by
  constructor
  · intro hrun
    obtain ⟨found, hfound, hrun⟩ := bind_eq_ok.mp hrun
    obtain ⟨_, hsame, hrun⟩ := bind_eq_ok.mp hrun
    rcases Nat.lt_or_ge s.length p.length with hlt | hle
    · obtain ⟨message, herror⟩ := prefixUnits_short h raw.length hlt
      rw [herror] at hfound
      cases hfound
    · obtain ⟨m, hm, hok, hreads⟩ := prefixUnits_token h (Nat.le_refl _) hle
      rw [hok] at hfound
      cases hfound
      cases hrun
      have hsame : s.take p.length = p := ensure_ok.mp hsame
      rw [hsame] at hreads
      exact ⟨hm, hreads⟩
  · rintro ⟨hn, hreads⟩
    rw [← List.take_append_drop n raw] at h
    obtain ⟨r, rfl, _⟩ := hreads.cut h
    rw [List.take_append_drop] at h
    obtain ⟨m, hm, hok, hreads'⟩ := prefixUnits_token (k := p.length) h (Nat.le_refl _)
      (by rw [List.length_append]; omega)
    rw [List.take_left] at hok hreads'
    obtain rfl := hreads.take_inj hn hm hreads'
    exact bind_eq_ok.mpr ⟨_, hok, bind_eq_ok.mpr ⟨(), ensure_ok.mpr rfl, rfl⟩⟩

/-! ## What a span does not cut -/

/-- An escape of a token, and what stands before it and behind it. -/
structure EscapeIn (raw a e : Units) (v : UInt16) (b : Units) : Prop where
  text : raw = a ++ (e ++ b)
  before : ∃ s, TokenReads a s
  escape : unescape e = some v

/-- Two escapes side by side that are read as the two halves of a surrogate pair. -/
structure PairIn (raw a e e' b : Units) (high low : UInt16) : Prop where
  first : EscapeIn raw a e high (e' ++ b)
  second : unescape e' = some low
  isHigh : isHighSurrogate high = true
  isLow : isLowSurrogate low = true

/-- A span of some length ends within what stands behind `a`. -/
def EndsWithin (n : Nat) (a e : Units) : Prop := a.length < n ∧ n < a.length + e.length

instance (n : Nat) (a e : Units) : Decidable (EndsWithin n a e) := inferInstanceAs (Decidable (_ ∧ _))

/-- The beginning of an escape is no token. -/
theorem not_tokenReads_take {e : Units} {v : UInt16} (he : unescape e = some v) {k : Nat}
    (hpos : 0 < k) (hk : k < e.length) (r : Units) : ¬ TokenReads (e.take k) r := by
  intro h
  obtain ⟨x, more, hcons, _⟩ := unescape_cons he
  obtain ⟨k, rfl⟩ : ∃ m, k = m + 1 := ⟨k - 1, by omega⟩
  generalize hraw : e.take (k + 1) = raw at h
  have hhead : raw = unitOf '\\' :: (x :: more).take k := by
    rw [← hraw, hcons, List.take_succ_cons]
  cases h with
  | nil => cases hhead
  | plain hb hq hc h => exact hb (List.cons.inj hhead).1
  | @escape e' v' raw' s' he' h =>
      -- the escape that stands there would be all of `e`
      have hwhole : e ++ [] = e' ++ (raw' ++ e.drop (k + 1)) := by
        rw [List.append_nil, ← List.append_assoc, ← hraw, List.take_append_drop]
      obtain ⟨hsame, _, _⟩ := unescape_append_inj he he' hwhole
      have hlen := congrArg List.length hraw
      rw [List.length_take, List.length_append, ← hsame] at hlen
      omega

theorem EscapeIn.not_within {raw a e b p : Units} {v : UInt16} {n : Nat} (h : EscapeIn raw a e v b)
    (hp : TokenReads (raw.take n) p) : ¬ EndsWithin n a e := by
  rintro ⟨hlt, hn⟩
  obtain ⟨s, hs⟩ := h.before
  have htake : raw.take n = a ++ e.take (n - a.length) := by
    rw [h.text, List.take_append, List.take_of_length_le (Nat.le_of_lt hlt),
      List.take_append_of_le_length (by omega)]
  rw [htake] at hp
  obtain ⟨r, _, hr⟩ := hs.cut hp
  exact not_tokenReads_take h.escape (by omega) (by omega) r hr

theorem TokenReads.single {e : Units} {v : UInt16} (he : unescape e = some v) :
    TokenReads e [v] := by
  rw [← List.append_nil e]
  exact .escape he .nil

/-- A span ends within a pair of escapes only where the prefix ends between the two halves. -/
theorem PairIn.within {raw a e e' b s p : Units} {high low : UInt16} {n : Nat}
    (h : PairIn raw a e e' b high low) (hs : TokenReads raw s) (hp : TokenReads (raw.take n) p)
    (hn : EndsWithin n a (e ++ e')) :
    ∃ q r, TokenReads a q ∧ p = q ++ [high] ∧ s = p ++ low :: r := by
  obtain ⟨q, hq⟩ := h.first.before
  have hae : TokenReads (a ++ e) (q ++ [high]) := hq.append (.single h.first.escape)
  have hsecond : EscapeIn raw (a ++ e) e' low b :=
    ⟨by rw [h.first.text, List.append_assoc], ⟨_, hae⟩, h.second⟩
  have hfirst := h.first.not_within hp
  have hnot := hsecond.not_within hp
  have hend : n = (a ++ e).length := by
    rw [EndsWithin, List.length_append] at hn hnot
    rw [EndsWithin] at hfirst
    rw [List.length_append]
    omega
  rw [hsecond.text] at hs hp
  rw [hend, List.take_left] at hp
  obtain rfl := hp.unique hae
  obtain ⟨r, rfl, hr⟩ := hp.cut hs
  obtain ⟨r', rfl, _⟩ := (TokenReads.single h.second).cut hr
  exact ⟨q, r', hq, rfl, rfl⟩

/-- **The span of a prefix.** It is found where there is one, it is the shortest, and what it cuts
the prefix cuts too: no escape, and a pair of escapes only between the two units it is read as. -/
theorem json_prefix_span {raw s : Units} (h : TokenReads raw s) (p : Units) :
    (∀ n, jsonPrefixLength raw p = .ok n ↔
      IsLeast {m | m ≤ raw.length ∧ TokenReads (raw.take m) p} n) ∧
    ((∃ message, jsonPrefixLength raw p = .error message) ↔
      ∀ m, m ≤ raw.length → ¬ TokenReads (raw.take m) p) ∧
    (p <+: s → ∃ n, jsonPrefixLength raw p = .ok n) ∧
    ∀ n, jsonPrefixLength raw p = .ok n →
      (∀ a e v b, EscapeIn raw a e v b → ¬ EndsWithin n a e) ∧
      ∀ a e e' b high low, PairIn raw a e e' b high low → EndsWithin n a (e ++ e') →
        ∃ q r, TokenReads a q ∧ p = q ++ [high] ∧ s = p ++ low :: r := by
  have hspan : ∀ n, jsonPrefixLength raw p = .ok n ↔
      n ≤ raw.length ∧ TokenReads (raw.take n) p := fun n => jsonPrefixLength_token h
  refine ⟨fun n => ?_, ?_, ?_, ?_⟩
  · rw [hspan]
    constructor
    · intro hn
      refine ⟨hn, fun m hm => ?_⟩
      exact (hn.2.take_inj hn.1 hm.1 hm.2).le
    · exact fun hn => hn.1
  · constructor
    · rintro ⟨message, herror⟩ m hm hreads
      rw [(hspan m).mpr ⟨hm, hreads⟩] at herror
      cases herror
    · intro hnone
      cases hrun : jsonPrefixLength raw p with
      | error message => exact ⟨message, rfl⟩
      | ok n => exact absurd ((hspan n).mp hrun).2 (hnone n ((hspan n).mp hrun).1)
  · rintro ⟨r, rfl⟩
    obtain ⟨n, hn, _, hreads⟩ := prefixUnits_token (k := p.length) h (Nat.le_refl _)
      (by rw [List.length_append]; omega)
    rw [List.take_left] at hreads
    exact ⟨n, (hspan n).mpr ⟨hn, hreads⟩⟩
  · intro n hn
    have hreads := ((hspan n).mp hn).2
    exact ⟨fun a e v b he => he.not_within hreads,
      fun a e e' b high low hpair hwithin => hpair.within h hreads hwithin⟩

/-- A surrogate pair, written with two escapes. -/
def pairToken : Units := unitsOf "\\ud83d\\ude00".toList

theorem pairToken_reads : TokenReads pairToken [0xd83d, 0xde00] :=
  @TokenReads.escape (unitsOf "\\ud83d".toList) _ _ _ (by decide)
    (@TokenReads.escape (unitsOf "\\ude00".toList) _ [] [] (by decide) .nil)

theorem pairToken_pair :
    PairIn pairToken [] (pairToken.take 6) (pairToken.drop 6) [] 0xd83d 0xde00 :=
  ⟨⟨by decide, ⟨[], .nil⟩, by decide⟩, by decide, rfl, rfl⟩

theorem json_prefix_span_pair :
    IsLeast {m | m ≤ pairToken.length ∧ TokenReads (pairToken.take m) [0xd83d, 0xde00]} 12 ∧
      (∃ n, jsonPrefixLength pairToken [0xd83d] = .ok n) ∧
      ∃ q r, TokenReads [] q ∧ [0xd83d] = q ++ [0xd83d] ∧
        ([0xd83d, 0xde00] : Units) = [0xd83d] ++ 0xde00 :: r :=
  ⟨((json_prefix_span pairToken_reads [0xd83d, 0xde00]).1 12).mp (by decide),
    (json_prefix_span pairToken_reads [0xd83d]).2.2.1 ⟨[0xde00], rfl⟩,
    ((json_prefix_span pairToken_reads [0xd83d]).2.2.2 6 (by decide)).2 _ _ _ _ _ _ pairToken_pair
      (by decide)⟩

/-- The span of the first half of a pair ends between its escapes. -/
theorem json_prefix_splits_pair : TokenReads pairToken [0xd83d, 0xde00] ∧
    [0xd83d] <+: ([0xd83d, 0xde00] : Units) ∧ jsonPrefixLength pairToken [0xd83d] = .ok 6 ∧
    PairIn pairToken [] (pairToken.take 6) (pairToken.drop 6) [] 0xd83d 0xde00 ∧
    EndsWithin 6 [] (pairToken.take 6 ++ pairToken.drop 6) := by
  exact ⟨pairToken_reads, ⟨[0xde00], rfl⟩, by decide, pairToken_pair, by decide, by decide⟩

end Caveat.Install
