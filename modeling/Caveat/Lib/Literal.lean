import Mathlib.Data.List.Basic

/-!
# String literals with doubled marks

A literal stands between two marks, and two marks in a row within it are one. A reader may know more
than one mark, all of which open, close and double; a writer that doubles only one of them is read
back where the text holds no other.
-/

namespace Caveat.Lib

variable {α : Type} (isMark : α → Bool)

/-- What a literal holds behind its opening mark, and what follows it. -/
def readLiteral : List α → Option (List α × List α)
  | [] => none
  | [c] => if isMark c then some ([], []) else none
  | c :: d :: s =>
      if isMark c then
        if isMark d then (readLiteral s).map fun r => (d :: r.1, r.2) else some ([], d :: s)
      else (readLiteral (d :: s)).map fun r => (c :: r.1, r.2)

variable {isMark}

theorem readLiteral_close {c : α} (hc : isMark c = true) {rest : List α}
    (h : ∀ d ∈ rest.head?, isMark d = false) : readLiteral isMark (c :: rest) = some ([], rest) := by
  cases rest with
  | nil => rw [readLiteral, if_pos hc]
  | cons d rest => rw [readLiteral, if_pos hc, if_neg (by simp [h d rfl])]

theorem readLiteral_plain {c : α} (hc : isMark c = false) (s : List α) :
    readLiteral isMark (c :: s) = (readLiteral isMark s).map fun r => (c :: r.1, r.2) := by
  cases s with
  | nil => simp [readLiteral, hc]
  | cons d s => rw [readLiteral, if_neg (by simp [hc])]

theorem readLiteral_doubled {c d : α} (hc : isMark c = true) (hd : isMark d = true) (s : List α) :
    readLiteral isMark (c :: d :: s) = (readLiteral isMark s).map fun r => (d :: r.1, r.2) := by
  rw [readLiteral, if_pos hc, if_pos hd]

/-- Every two marks of what was read are one symbol of the value. -/
theorem readLiteral_marks : ∀ (s value rest : List α), readLiteral isMark s = some (value, rest) →
    ∃ body mark, s = body ++ mark :: rest ∧ isMark mark = true ∧
      2 * body.length = 2 * value.length + body.countP isMark := by
  intro s
  induction s using readLiteral.induct isMark with
  | case1 => intro value rest h; cases h
  | case2 c hc =>
      intro value rest h
      rw [readLiteral, if_pos hc] at h
      cases h
      exact ⟨[], c, rfl, hc, rfl⟩
  | case3 c hc =>
      intro value rest h
      rw [readLiteral, if_neg hc] at h
      cases h
  | case4 c d s hc hd ih =>
      intro value rest h
      rw [readLiteral_doubled hc hd, Option.map_eq_some_iff] at h
      obtain ⟨⟨v, r⟩, hr, heq⟩ := h
      cases heq
      obtain ⟨body, mark, rfl, hmark, hlen⟩ := ih v r hr
      refine ⟨c :: d :: body, mark, rfl, hmark, ?_⟩
      rw [List.countP_cons_of_pos hc, List.countP_cons_of_pos hd]
      simp only [List.length_cons]
      omega
  | case5 c d s hc hd =>
      intro value rest h
      rw [readLiteral, if_pos hc, if_neg hd] at h
      cases h
      exact ⟨[], c, rfl, hc, rfl⟩
  | case6 c d s hc ih =>
      intro value rest h
      rw [readLiteral, if_neg hc, Option.map_eq_some_iff] at h
      obtain ⟨⟨v, r⟩, hr, heq⟩ := h
      cases heq
      obtain ⟨body, mark, hs, hmark, hlen⟩ := ih v r hr
      refine ⟨c :: body, mark, by rw [hs]; rfl, hmark, ?_⟩
      rw [List.countP_cons_of_neg hc]
      simp only [List.length_cons]
      omega

variable [DecidableEq α]

/-- `value.replaceAll(mark, mark + mark)`. -/
def doubleMarks (mark : α) (s : List α) : List α :=
  s.flatMap fun c => if c = mark then [mark, mark] else [c]

theorem doubleMarks_cons (mark c : α) (s : List α) :
    doubleMarks mark (c :: s) = (if c = mark then [mark, mark] else [c]) ++ doubleMarks mark s :=
  List.flatMap_cons

/-- Where no other mark is in the text, it is read back. -/
theorem readLiteral_doubleMarks {mark : α} (hmark : isMark mark = true) {rest : List α}
    (hrest : ∀ d ∈ rest.head?, isMark d = false) :
    ∀ s : List α, (∀ c ∈ s, isMark c = true → c = mark) →
      readLiteral isMark (doubleMarks mark s ++ mark :: rest) = some (s, rest) := by
  intro s
  induction s with
  | nil => intro _; exact readLiteral_close hmark hrest
  | cons c s ih =>
      intro h
      have hs := ih fun d hd => h d (List.mem_cons_of_mem c hd)
      rw [doubleMarks_cons]
      by_cases hc : c = mark
      · rw [if_pos hc, List.append_assoc, List.cons_append, List.cons_append, List.nil_append,
          readLiteral_doubled hmark hmark, hs, hc]
        rfl
      · have hplain : isMark c = false := by
          by_contra htrue
          exact hc (h c List.mem_cons_self (by simpa using htrue))
        rw [if_neg hc, List.append_assoc, List.singleton_append, readLiteral_plain hplain, hs]
        rfl

/-- A mark that is not doubled is only half a symbol of the value. -/
theorem doubleMarks_marks {mark : α} (hmark : isMark mark = true) (s : List α) :
    2 * (doubleMarks mark s).length + s.countP (fun c => isMark c && c ≠ mark) =
      2 * s.length + (doubleMarks mark s).countP isMark := by
  induction s with
  | nil => rfl
  | cons c s ih =>
      rw [doubleMarks_cons, List.countP_append, List.length_append, List.length_cons]
      by_cases hc : c = mark
      · rw [if_pos hc, List.countP_cons_of_neg (by simp [hc])]
        have hpair : [mark, mark].countP isMark = 2 := by simp [hmark]
        rw [hpair]
        simp only [List.length_cons, List.length_nil]
        omega
      · rw [if_neg hc]
        by_cases hm : isMark c = true
        · rw [List.countP_cons_of_pos (by simp [hm, hc]), List.countP_singleton, if_pos hm]
          simp only [List.length_cons, List.length_nil]
          omega
        · rw [List.countP_cons_of_neg (by simp [hm]), List.countP_singleton, if_neg hm]
          simp only [List.length_cons, List.length_nil]
          omega

/-- **A text is read back from its literal exactly where it holds no other mark.** -/
theorem readLiteral_doubleMarks_iff {mark : α} (hmark : isMark mark = true) {rest : List α}
    (hrest : ∀ d ∈ rest.head?, isMark d = false) (s : List α) :
    readLiteral isMark (doubleMarks mark s ++ mark :: rest) = some (s, rest) ↔
      ∀ c ∈ s, isMark c = true → c = mark := by
  refine ⟨fun h c hc hm => ?_, readLiteral_doubleMarks hmark hrest s⟩
  obtain ⟨body, m, hsplit, _, hlen⟩ := readLiteral_marks _ _ _ h
  have hbody : body = doubleMarks mark s := by
    have htotal := congrArg List.length hsplit
    simp only [List.length_append, List.length_cons] at htotal
    exact (List.append_inj hsplit (by omega)).1.symm
  have hmarks := doubleMarks_marks hmark s
  rw [hbody] at hlen
  have hzero : s.countP (fun c => isMark c && c ≠ mark) = 0 := by omega
  have hnone := List.countP_eq_zero.mp hzero c hc
  by_contra hne
  exact hnone (by simp [hm, hne])

end Caveat.Lib
