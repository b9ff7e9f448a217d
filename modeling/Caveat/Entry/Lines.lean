import Caveat.Entry.Sections

/-!
# Lines of a text

A line break is `\n` or `\r\n`. A text that does not end with `\r` can be lengthened without
changing a break: its last line goes on, and the other lines are kept. A text cut at its end loses
the end of one line and what comes behind, and a text cut at its start loses the start of one.
-/

namespace Caveat.Entry

open Js

attribute [local simp] splitLines

theorem splitLines_newline (s : Text) : splitLines ('\n' :: s) = [] :: splitLines s := by
  simp

theorem splitLines_cons {c : Char} {s : Text} (hn : c ≠ '\n')
    (hr : c = '\r' → s.head? ≠ some '\n') :
    splitLines (c :: s) = (splitLines s).modifyHead (c :: ·) := by
  cases s with
  | nil => exact splitLines.eq_4 c [] hn (by simp)
  | cons d s =>
      refine splitLines.eq_4 c (d :: s) hn ?_
      rintro s' rfl hs
      exact hr rfl (by rw [hs]; rfl)

theorem splitLines_ne_nil (s : Text) : splitLines s ≠ [] := by
  induction s using splitLines.induct with
  | case1 => simp
  | case2 s ih => simp
  | case3 s ih => simp
  | case4 c s h1 h2 ih =>
      rw [splitLines.eq_4 c s h1 h2]
      cases hs : splitLines s with
      | nil => exact absurd hs ih
      | cons l ls => simp

/-- A text without a line break is one line. -/
theorem splitLines_of_no_newline {s : Text} (h : '\n' ∉ s) : splitLines s = [s] := by
  induction s with
  | nil => rfl
  | cons c s ih =>
      rw [List.mem_cons, not_or] at h
      rw [splitLines_cons (fun hc => h.1 hc.symm), ih h.2]
      · rfl
      · intro _ hs
        exact h.2 (List.mem_of_head? hs)

theorem mem_of_mem_splitLines {s l : Text} {c : Char} (hl : l ∈ splitLines s) (hc : c ∈ l) :
    c ∈ s := by
  induction s using splitLines.induct generalizing l with
  | case1 =>
      rw [splitLines, List.mem_singleton] at hl
      rwa [hl] at hc
  | case2 s ih =>
      rw [splitLines] at hl
      rcases List.mem_cons.mp hl with rfl | hl
      · exact absurd hc (by simp)
      · exact List.mem_cons_of_mem _ (ih hl hc)
  | case3 s ih =>
      rw [splitLines] at hl
      rcases List.mem_cons.mp hl with rfl | hl
      · exact absurd hc (by simp)
      · exact List.mem_cons_of_mem _ (List.mem_cons_of_mem _ (ih hl hc))
  | case4 d s h1 h2 ih =>
      rw [splitLines.eq_4 d s h1 h2] at hl
      cases hs : splitLines s with
      | nil => exact absurd hs (splitLines_ne_nil s)
      | cons m ms =>
          rw [hs, List.modifyHead_cons] at hl
          rcases List.mem_cons.mp hl with rfl | hl
          · rcases List.mem_cons.mp hc with rfl | hc
            · exact List.mem_cons_self
            · exact List.mem_cons_of_mem _ (ih (by rw [hs]; exact List.mem_cons_self) hc)
          · exact List.mem_cons_of_mem _ (ih (by rw [hs]; exact List.mem_cons_of_mem _ hl) hc)

/-- The last line of a text goes on in what follows it. -/
theorem splitLines_append {a : Text} (h : a.getLast? ≠ some '\r') : ∃ init last,
    splitLines a = init ++ [last] ∧
      ∀ b, splitLines (a ++ b) = init ++ (splitLines b).modifyHead (last ++ ·) := by
  induction a using splitLines.induct with
  | case1 =>
      refine ⟨[], [], rfl, fun b => ?_⟩
      rw [List.nil_append, List.nil_append]
      cases splitLines b <;> rfl
  | case2 a ih =>
      have hlast : a.getLast? ≠ some '\r' := by
        cases a with
        | nil => simp
        | cons d a => exact h
      obtain ⟨init, last, ha, hb⟩ := ih hlast
      refine ⟨[] :: init, last, ?_, fun b => ?_⟩
      · rw [splitLines_newline, ha, List.cons_append]
      · rw [List.cons_append, splitLines_newline, hb, List.cons_append]
  | case3 a ih =>
      have hlast : a.getLast? ≠ some '\r' := by
        cases a with
        | nil => simp
        | cons d a => exact h
      obtain ⟨init, last, ha, hb⟩ := ih hlast
      refine ⟨[] :: init, last, ?_, fun b => ?_⟩
      · rw [splitLines, ha, List.cons_append]
      · rw [List.cons_append, List.cons_append, splitLines, hb, List.cons_append]
  | case4 c a h1 h2 ih =>
      have hr : ∀ b : Text, c = '\r' → (a ++ b).head? ≠ some '\n' := by
        rintro b rfl
        cases a with
        | nil => exact absurd rfl h
        | cons d a =>
            intro hd
            exact h2 a rfl (by rw [show d = '\n' from by simpa using hd])
      have hn : c ≠ '\n' := fun hc => h1 hc
      have hlast : a.getLast? ≠ some '\r' := by
        cases a with
        | nil => simp
        | cons d a => exact h
      obtain ⟨init, last, ha, hb⟩ := ih hlast
      cases init with
      | nil =>
          refine ⟨[], c :: last, ?_, fun b => ?_⟩
          · rw [splitLines_cons hn (by simpa using hr []), ha]
            rfl
          · rw [List.cons_append, splitLines_cons hn (hr b), hb, List.nil_append, List.nil_append]
            cases splitLines b <;> rfl
      | cons l init =>
          refine ⟨(c :: l) :: init, last, ?_, fun b => ?_⟩
          · rw [splitLines_cons hn (by simpa using hr []), ha]
            rfl
          · rw [List.cons_append, splitLines_cons hn (hr b), hb]
            rfl

/-- The lines of a part that ends with `\n`, and the lines after it. -/
theorem splitLines_append_newline {a : Text} (h : a.getLast? ≠ some '\r') (b : Text) :
    splitLines (a ++ '\n' :: b) = splitLines a ++ splitLines b := by
  obtain ⟨init, last, ha, hb⟩ := splitLines_append h
  rw [hb, ha, splitLines_newline, List.modifyHead_cons, List.append_nil, List.append_assoc]
  rfl

/-- Behind its first line a text that ends another one has the same lines. -/
theorem tail_splitLines_subset {s t : Text} (h : t <:+ s) :
    (splitLines t).tail ⊆ (splitLines s).tail := by
  obtain ⟨p, rfl⟩ := h
  have hstep : ∀ (c : Char) (s : Text), (splitLines s).tail ⊆ (splitLines (c :: s)).tail := by
    intro c s
    by_cases hn : c = '\n'
    · rw [hn, splitLines_newline]
      exact fun l hl => List.mem_of_mem_tail hl
    · by_cases hr : c = '\r' ∧ s.head? = some '\n'
      · obtain ⟨rfl, hs⟩ := hr
        obtain ⟨s, rfl⟩ : ∃ s', s = '\n' :: s' := by
          cases s with
          | nil => exact absurd hs (by simp)
          | cons d s => exact ⟨s, by rw [show d = '\n' from by simpa using hs]⟩
        rw [splitLines_newline, splitLines]
        exact fun l hl => hl
      · rw [splitLines_cons hn fun hc hs => hr ⟨hc, hs⟩]
        cases splitLines s <;> exact fun l hl => hl
  induction p with
  | nil => exact fun l hl => hl
  | cons c p ih => exact fun l hl => hstep c (p ++ t) (ih hl)

/-! ## White space at the end -/

theorem trimEnd_append_of_isSpace (a : Text) {u : Text} (hu : ∀ c ∈ u, isSpace c = true) :
    trimEnd (a ++ u) = trimEnd a := by
  rw [trimEnd, trimEnd, List.rdropWhile, List.rdropWhile, List.reverse_append,
    List.dropWhile_append_of_pos fun c hc => hu c (List.mem_reverse.mp hc)]

/-- A text is its trimmed form and white space. -/
theorem exists_trimEnd_append (s : Text) : ∃ u, s = trimEnd s ++ u ∧ ∀ c ∈ u, isSpace c = true := by
  refine ⟨s.rtakeWhile isSpace, List.rdropWhile_append_rtakeWhile.symm, fun c hc => ?_⟩
  exact List.mem_rtakeWhile_imp hc

theorem getLast?_of_trimEnd_eq {s : Text} (h : trimEnd s = s) {c : Char}
    (hc : s.getLast? = some c) : isSpace c = false := by
  rw [trimEnd, List.rdropWhile_eq_self_iff] at h
  have hne : s ≠ [] := by
    rintro rfl
    exact absurd hc (by simp)
  have hlast : s.getLast hne = c := by
    rw [List.getLast?_eq_some_getLast hne] at hc
    exact Option.some.inj hc
  have := h hne
  rw [hlast] at this
  simpa using this

theorem getLast?_ne_return {s : Text} (h : trimEnd s = s) : s.getLast? ≠ some '\r' := by
  intro hr
  exact absurd (getLast?_of_trimEnd_eq h hr) (by decide)

theorem trimEnd_trimEnd (s : Text) : trimEnd (trimEnd s) = trimEnd s := by
  rw [trimEnd, trimEnd, List.rdropWhile_idempotent]

/-- A line of a trimmed text lacks at most white space that the line had. -/
theorem mem_splitLines_trimEnd {s l : Text} (h : l ∈ (splitLines (trimEnd s)).tail) :
    ∃ u, l ++ u ∈ (splitLines s).tail ∧ ∀ c ∈ u, isSpace c = true := by
  obtain ⟨u, hs, hu⟩ := exists_trimEnd_append s
  obtain ⟨init, last, ha, hb⟩ := splitLines_append (getLast?_ne_return (trimEnd_trimEnd s))
  have hsplit := hb u
  rw [← hs] at hsplit
  rw [ha] at h
  rw [hsplit]
  cases hv : splitLines u with
  | nil => exact absurd hv (splitLines_ne_nil u)
  | cons v vs =>
      cases init with
      | nil => exact absurd h (by simp)
      | cons i init =>
          rcases List.mem_append.mp h with hl | hl
          · exact ⟨[], by simp [hl], by simp⟩
          · -- the last line goes on with the first line of the white space
            rw [List.mem_singleton.mp hl]
            refine ⟨v, by simp, fun c hc => hu c (mem_of_mem_splitLines ?_ hc)⟩
            rw [hv]
            exact List.mem_cons_self

/-! ## Joined lines -/

theorem joinLines_cons_cons (l m : Text) (ls : List Text) :
    joinLines (l :: m :: ls) = l ++ '\n' :: joinLines (m :: ls) := by
  simp [joinLines, List.intercalate]

/-- A line break behind joined lines gives an empty line. -/
theorem joinLines_append_newline {lines : List Text} (hne : lines ≠ []) :
    joinLines lines ++ ['\n'] = joinLines (lines ++ [[]]) := by
  induction lines with
  | nil => exact absurd rfl hne
  | cons l lines ih =>
      cases lines with
      | nil => simp [joinLines, List.intercalate]
      | cons m lines =>
          rw [joinLines_cons_cons, List.append_assoc, List.cons_append, ih (by simp)]
          exact (joinLines_cons_cons l m (lines ++ [[]])).symm

theorem splitLines_joinLines {lines : List Text} (hne : lines ≠ [])
    (h : ∀ l ∈ lines, l.getLast? ≠ some '\r') :
    splitLines (joinLines lines) = lines.flatMap splitLines := by
  induction lines with
  | nil => exact absurd rfl hne
  | cons l lines ih =>
      cases lines with
      | nil => simp [joinLines, List.intercalate]
      | cons m lines =>
          rw [joinLines_cons_cons, splitLines_append_newline (h l (by simp)),
            ih (by simp) fun l hl => h l (List.mem_cons_of_mem _ hl)]
          rfl

theorem joinLines_concat {lines : List Text} (hne : lines ≠ []) (l : Text) :
    joinLines (lines ++ [l]) = joinLines lines ++ '\n' :: l := by
  induction lines with
  | nil => exact absurd rfl hne
  | cons m lines ih =>
      cases lines with
      | nil => simp [joinLines, List.intercalate]
      | cons k lines =>
          rw [List.cons_append, List.cons_append, joinLines_cons_cons, joinLines_cons_cons,
            ← List.cons_append, ih (by simp), List.append_assoc]
          rfl

/-- Joined lines that are trimmed lose their empty ones at the end. -/
theorem trimEnd_joinLines {lines : List Text} (h : ∀ l ∈ lines, trimEnd l = l) :
    trimEnd (joinLines lines) = joinLines (lines.rdropWhile List.isEmpty) := by
  induction lines using List.reverseRecOn with
  | nil => rfl
  | append_singleton lines l ih =>
      have hlines := ih fun m hm => h m (List.mem_append_left _ hm)
      by_cases hl : l = []
      · subst hl
        rw [List.rdropWhile_concat_pos _ _ _ (by rfl), ← hlines]
        cases lines with
        | nil => rfl
        | cons m lines =>
            rw [joinLines_concat (by simp)]
            exact trimEnd_append_of_isSpace _ (by simp; decide)
      · rw [List.rdropWhile_concat_neg _ _ _ (by simpa using hl)]
        have hself := h l (by simp)
        rw [trimEnd, List.rdropWhile_eq_self_iff] at hself ⊢
        intro hne
        have hlast : (joinLines (lines ++ [l])).getLast hne = l.getLast hl := by
          cases lines with
          | nil => simp [joinLines, List.intercalate]
          | cons m lines =>
              have hjoin := joinLines_concat (show m :: lines ≠ [] by simp) l
              simp only [hjoin]
              rw [List.getLast_append_of_ne_nil _ (by simp), List.getLast_cons hl]
        rw [hlast]
        exact hself hl

end Caveat.Entry
