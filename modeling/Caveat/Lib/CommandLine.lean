import Mathlib.Data.List.Basic
import Mathlib.Data.List.DropRight

/-!
# Command lines that are one string

A program that is given its arguments as one string splits it at the blanks outside quotation marks.
Backslashes stand for themselves, except right before a mark: there two of them are one, and an odd
one makes the mark an ordinary symbol.
-/

namespace Caveat.Lib

variable {α : Type} [DecidableEq α] (mark back : α) (blank : α → Bool)

/-! ## Splitting -/

/-- The argument that is being read. -/
structure Argument (α : Type) where
  quoted : Bool
  /-- The backslashes read last. -/
  pending : Nat
  text : List α

def Argument.fresh : Argument α := ⟨false, 0, []⟩

/-- The argument, if nothing more belongs to it. -/
def Argument.close (a : Argument α) : List α := a.text ++ List.replicate a.pending back

def Argument.next (a : Argument α) (c : α) : Argument α :=
  if c = back then { a with pending := a.pending + 1 }
  else if c = mark then
    if a.pending % 2 = 0 then
      ⟨!a.quoted, 0, a.text ++ List.replicate (a.pending / 2) back⟩
    else ⟨a.quoted, 0, a.text ++ List.replicate (a.pending / 2) back ++ [mark]⟩
  else ⟨a.quoted, 0, a.text ++ List.replicate a.pending back ++ [c]⟩

/-- The arguments of a string, where `none` is the place between two of them. -/
def splitArguments : Option (Argument α) → List α → List (List α)
  | none, [] => []
  | some a, [] => [a.close back]
  | none, c :: s =>
      if blank c then splitArguments none s
      else splitArguments (some (Argument.fresh.next mark back c)) s
  | some a, c :: s =>
      if blank c ∧ a.quoted = false then a.close back :: splitArguments none s
      else splitArguments (some (a.next mark back c)) s

/-! ## Quoting -/

/-- `replace(/(\\*)"/g, '$1$1\\"')`, so many backslashes into a run of them. -/
def escapeMarks : Nat → List α → List α
  | n, [] => List.replicate n back
  | n, c :: s =>
      if c = back then escapeMarks (n + 1) s
      else if c = mark then List.replicate (2 * n) back ++ back :: mark :: escapeMarks 0 s
      else List.replicate n back ++ c :: escapeMarks 0 s

/-- `replace(/(\\+)$/g, '$1$1')`. -/
def doubleLast (s : List α) : List α := s ++ s.rtakeWhile (· = back)

/-- An argument between quotation marks. -/
def quoteArgument (s : List α) : List α := mark :: doubleLast back (escapeMarks mark back 0 s) ++ [mark]

variable {mark back}

theorem rtakeWhile_replicate (n : Nat) :
    (List.replicate n back).rtakeWhile (· = back) = List.replicate n back := by
  rw [List.rtakeWhile_eq_self_iff]
  intro x hx
  simpa using List.eq_of_mem_replicate hx

theorem rtakeWhile_append_cons {c : α} (hc : c ≠ back) (s t : List α) :
    (s ++ c :: t).rtakeWhile (· = back) = t.rtakeWhile (· = back) := by
  induction t using List.reverseRecOn with
  | nil =>
      rw [List.rtakeWhile_concat_neg _ _ _ (by simpa using hc)]
      rfl
  | append_singleton t d ih =>
      by_cases hd : d = back
      · rw [← List.cons_append, ← List.append_assoc, List.rtakeWhile_concat_pos _ _ _ (by simpa using hd),
          List.rtakeWhile_concat_pos _ _ _ (by simpa using hd), ih]
      · rw [← List.cons_append, ← List.append_assoc, List.rtakeWhile_concat_neg _ _ _ (by simpa using hd),
          List.rtakeWhile_concat_neg _ _ _ (by simpa using hd)]

theorem doubleLast_append_cons {c : α} (hc : c ≠ back) (s t : List α) :
    doubleLast back (s ++ c :: t) = s ++ c :: doubleLast back t := by
  rw [doubleLast, rtakeWhile_append_cons hc, doubleLast, List.append_assoc, List.cons_append]

theorem doubleLast_replicate (n : Nat) :
    doubleLast back (List.replicate n back) = List.replicate (2 * n) back := by
  rw [doubleLast, rtakeWhile_replicate, ← List.replicate_add, Nat.two_mul]

theorem escapeMarks_append_plain {c : α} (hmark : c ≠ mark) (hback : c ≠ back) (s : List α) :
    ∀ (t : List α) (n : Nat),
      escapeMarks mark back n (t ++ c :: s) = escapeMarks mark back n t ++ c :: escapeMarks mark back 0 s := by
  intro t
  induction t with
  | nil =>
      intro n
      show (if c = back then _ else if c = mark then _ else _) = _
      rw [if_neg hback, if_neg hmark]
      rfl
  | cons d t ih =>
      intro n
      rw [List.cons_append, escapeMarks, escapeMarks]
      split
      · exact ih (n + 1)
      · split
        · rw [ih, List.append_assoc, List.cons_append, List.cons_append]
        · rw [ih, List.append_assoc, List.cons_append]

/-- Backslashes at the end are left as they are. -/
theorem escapeMarks_append_replicate (k : Nat) : ∀ (t : List α) (n : Nat),
    escapeMarks mark back n (t ++ List.replicate k back) =
      escapeMarks mark back n t ++ List.replicate k back := by
  intro t
  induction t with
  | nil =>
      intro n
      rw [List.nil_append, escapeMarks, ← List.replicate_add]
      induction k generalizing n with
      | zero => rfl
      | succ k ih => rw [List.replicate_succ, escapeMarks, if_pos rfl, ih, Nat.add_right_comm, Nat.add_assoc]
  | cons d t ih =>
      intro n
      rw [List.cons_append, escapeMarks, escapeMarks]
      split
      · exact ih (n + 1)
      · split
        · rw [ih, List.append_assoc, List.cons_append, List.cons_append]
        · rw [ih, List.append_assoc, List.cons_append]

theorem rtakeWhile_escapeMarks (hne : mark ≠ back) : ∀ (t : List α) (n : Nat),
    (escapeMarks mark back n t).rtakeWhile (· = back) =
      (List.replicate n back ++ t).rtakeWhile (· = back) := by
  intro t
  induction t with
  | nil => intro n; rw [escapeMarks, List.append_nil]
  | cons c t ih =>
      intro n
      rw [escapeMarks]
      by_cases hb : c = back
      · rw [if_pos hb, ih, hb, List.replicate_succ', List.append_assoc, List.singleton_append]
      · rw [if_neg hb, rtakeWhile_append_cons hb]
        by_cases hm : c = mark
        · rw [if_pos hm, ← List.singleton_append, ← List.append_assoc,
            rtakeWhile_append_cons hne, ih, List.replicate_zero, List.nil_append]
        · rw [if_neg hm, rtakeWhile_append_cons hb, ih, List.replicate_zero, List.nil_append]

/-- The last symbol of a text is still the last once its marks are escaped. -/
theorem getLast?_escapeMarks : ∀ (s : List α) (n : Nat),
    (escapeMarks mark back n s).getLast? = (List.replicate n back ++ s).getLast? := by
  intro s
  induction s with
  | nil => intro n; rw [escapeMarks, List.append_nil]
  | cons c s ih =>
      intro n
      have hlast : ∀ (t : List α) (d : α), (t ++ d :: escapeMarks mark back 0 s).getLast? =
          (d :: s).getLast? := by
        intro t d
        rw [List.getLast?_append_cons, List.getLast?_cons, ih, List.replicate_zero, List.nil_append,
          List.getLast?_cons]
      rw [escapeMarks, List.getLast?_append_cons]
      split
      · rename_i hc
        rw [ih, hc, List.replicate_succ', List.append_assoc, List.singleton_append,
          List.getLast?_append_cons]
      · split
        · rename_i hm
          rw [← List.singleton_append, ← List.append_assoc, hlast, hm]
        · exact hlast _ c

/-- Marks are escaped and the backslashes at the end doubled, in either order. -/
theorem escapeMarks_doubleLast (hne : mark ≠ back) (s : List α) :
    escapeMarks mark back 0 (doubleLast back s) = doubleLast back (escapeMarks mark back 0 s) := by
  have hrun : s.rtakeWhile (· = back) = List.replicate (s.rtakeWhile (· = back)).length back := by
    refine List.eq_replicate_iff.mpr ⟨rfl, fun c hc => ?_⟩
    simpa using List.mem_rtakeWhile_imp hc
  rw [doubleLast, hrun, escapeMarks_append_replicate, ← hrun, doubleLast, rtakeWhile_escapeMarks hne,
    List.replicate_zero, List.nil_append]

/-- A text without marks and backslashes is quoted as it is. -/
theorem quoteArgument_plain {s : List α} (hmark : mark ∉ s) (hback : back ∉ s) :
    quoteArgument mark back s = mark :: s ++ [mark] := by
  have hescape : ∀ t : List α, mark ∉ t → back ∉ t → escapeMarks mark back 0 t = t := by
    intro t
    induction t with
    | nil => intro _ _; rfl
    | cons c t ih =>
        intro hm hb
        rw [List.mem_cons, not_or] at hm hb
        rw [escapeMarks, if_neg (Ne.symm hb.1), if_neg (Ne.symm hm.1), ih hm.2 hb.2]
        rfl
  have hlast : s.rtakeWhile (· = back) = [] := by
    refine List.eq_nil_iff_forall_not_mem.mpr fun c hc => hback ?_
    have hsuffix := List.rtakeWhile_suffix (· = back) s
    have hback' : c = back := by simpa using List.mem_rtakeWhile_imp hc
    exact hback' ▸ hsuffix.subset hc
  rw [quoteArgument, hescape s hmark hback, doubleLast, hlast, List.append_nil]

variable {blank}

/-- Backslashes wait for what follows them. -/
theorem splitArguments_replicate (quoted : Bool) (text rest : List α) (hblank : blank back = false) :
    ∀ n m, splitArguments mark back blank (some ⟨quoted, m, text⟩) (List.replicate n back ++ rest) =
      splitArguments mark back blank (some ⟨quoted, m + n, text⟩) rest := by
  intro n
  induction n with
  | zero => intro m; rfl
  | succ n ih =>
      intro m
      rw [List.replicate_succ, List.cons_append, splitArguments, if_neg (by simp [hblank])]
      have hnext : Argument.next mark back ⟨quoted, m, text⟩ back = ⟨quoted, m + 1, text⟩ := if_pos rfl
      rw [hnext, ih, Nat.add_right_comm, Nat.add_assoc]

/-- What is quoted is read up to the closing mark. -/
theorem splitArguments_escaped (hne : mark ≠ back) (hback : blank back = false) (rest : List α) :
    ∀ (s : List α) (n : Nat) (text : List α),
      splitArguments mark back blank (some ⟨true, 0, text⟩)
          (doubleLast back (escapeMarks mark back n s) ++ mark :: rest) =
        splitArguments mark back blank (some ⟨false, 0, text ++ List.replicate n back ++ s⟩) rest := by
  intro s
  induction s with
  | nil =>
      -- the backslashes at the end are doubled, so the mark behind them closes
      intro n text
      rw [escapeMarks, doubleLast_replicate, splitArguments_replicate _ _ _ hback, splitArguments,
        if_neg (by simp)]
      have hnext : Argument.next mark back ⟨true, 0 + 2 * n, text⟩ mark =
          ⟨false, 0, text ++ List.replicate n back⟩ := by
        rw [Argument.next, if_neg hne, if_pos rfl, if_pos (show (0 + 2 * n) % 2 = 0 by omega)]
        simp
      rw [hnext, List.append_nil]
  | cons c s ih =>
      intro n text
      by_cases hcb : c = back
      · rw [escapeMarks, if_pos hcb, ih, hcb, List.replicate_succ', List.append_assoc,
          List.append_assoc, List.append_assoc, List.singleton_append]
      · by_cases hcm : c = mark
        · subst hcm
          rw [escapeMarks, if_neg hcb, if_pos rfl]
          have hsplit : List.replicate (2 * n) back ++ back :: c :: escapeMarks c back 0 s =
              List.replicate (2 * n + 1) back ++ c :: escapeMarks c back 0 s := by
            rw [List.replicate_succ', List.append_assoc, List.singleton_append]
          rw [hsplit, doubleLast_append_cons hcb, List.append_assoc, List.cons_append,
            splitArguments_replicate _ _ _ hback, splitArguments, if_neg (by simp)]
          -- an odd number of backslashes: the mark stands for itself
          have hnext : Argument.next c back ⟨true, 0 + (2 * n + 1), text⟩ c =
              ⟨true, 0, text ++ List.replicate n back ++ [c]⟩ := by
            rw [Argument.next, if_neg hcb, if_pos rfl, if_neg (show ¬ (0 + (2 * n + 1)) % 2 = 0 by omega)]
            have hhalf : (0 + (2 * n + 1)) / 2 = n := by omega
            simp only [hhalf]
          rw [hnext, ih]
          simp
        · rw [escapeMarks, if_neg hcb, if_neg hcm, doubleLast_append_cons hcb, List.append_assoc,
            List.cons_append, splitArguments_replicate _ _ _ hback, splitArguments, if_neg (by simp)]
          have hnext : Argument.next mark back ⟨true, 0 + n, text⟩ c =
              ⟨true, 0, text ++ List.replicate n back ++ [c]⟩ := by
            rw [Argument.next, if_neg hcb, if_neg hcm, Nat.zero_add]
          rw [hnext, ih]
          simp

/-- Symbols that stand for themselves are added to the argument, up to a blank. -/
theorem splitArguments_plain {space : α} (hspace : blank space = true) (rest : List α) :
    ∀ w t : List α, (∀ c ∈ w, c ≠ mark ∧ c ≠ back ∧ blank c = false) →
      splitArguments mark back blank (some ⟨false, 0, t⟩) (w ++ space :: rest) =
        (t ++ w) :: splitArguments mark back blank none rest := by
  intro w
  induction w with
  | nil =>
      intro t _
      rw [List.nil_append, splitArguments, if_pos ⟨hspace, rfl⟩]
      simp [Argument.close]
  | cons c w ih =>
      intro t hw
      obtain ⟨hmark, hback, hblank⟩ := hw c List.mem_cons_self
      have hnext : Argument.next mark back ⟨false, 0, t⟩ c = ⟨false, 0, t ++ [c]⟩ := by
        rw [Argument.next, if_neg hback, if_neg hmark]
        simp
      rw [List.cons_append, splitArguments, if_neg (by simp [hblank]), hnext,
        ih _ fun d hd => hw d (List.mem_cons_of_mem c hd), List.append_assoc, List.singleton_append]

theorem splitArguments_word {space : α} (hspace : blank space = true) (rest : List α) {w : List α}
    (hne : w ≠ []) (hw : ∀ c ∈ w, c ≠ mark ∧ c ≠ back ∧ blank c = false) :
    splitArguments mark back blank none (w ++ space :: rest) =
      w :: splitArguments mark back blank none rest := by
  cases w with
  | nil => exact absurd rfl hne
  | cons c w =>
      obtain ⟨hmark, hback, hblank⟩ := hw c List.mem_cons_self
      have hnext : Argument.next mark back Argument.fresh c = ⟨false, 0, [c]⟩ := by
        rw [Argument.next, if_neg hback, if_neg hmark]
        rfl
      rw [List.cons_append, splitArguments, if_neg (by simp [hblank]), hnext,
        splitArguments_plain hspace rest w [c] fun d hd => hw d (List.mem_cons_of_mem c hd)]
      rfl

/-- A quoted argument before what is not part of it. -/
theorem splitArguments_quoteArgument (hne : mark ≠ back) (hback : blank back = false)
    (hmark : blank mark = false) (s rest : List α) :
    splitArguments mark back blank none (quoteArgument mark back s ++ rest) =
      splitArguments mark back blank (some ⟨false, 0, s⟩) rest := by
  rw [quoteArgument, List.cons_append, List.cons_append, splitArguments, if_neg (by simp [hmark])]
  have hnext : Argument.next mark back Argument.fresh mark = ⟨true, 0, []⟩ := by
    simp [Argument.next, Argument.fresh, hne]
  rw [hnext, List.append_assoc, List.singleton_append, splitArguments_escaped hne hback]
  rfl

/-- **Arguments that are quoted and joined with a blank are split into themselves.** -/
theorem splitArguments_join {space : α} (hne : mark ≠ back) (hback : blank back = false)
    (hmark : blank mark = false) (hspace : blank space = true) (args : List (List α)) :
    splitArguments mark back blank none ([space].intercalate (args.map (quoteArgument mark back))) =
      args := by
  induction args with
  | nil => rfl
  | cons s args ih =>
      by_cases hnil : args = []
      · subst hnil
        rw [List.map_singleton, List.intercalate_singleton, ← List.append_nil (quoteArgument mark back s),
          splitArguments_quoteArgument hne hback hmark]
        simp [splitArguments, Argument.close]
      · rw [List.map_cons, List.intercalate_cons_of_ne_nil (by simpa using hnil), List.append_assoc,
          splitArguments_quoteArgument hne hback hmark, List.singleton_append, splitArguments,
          if_pos ⟨hspace, rfl⟩, ih]
        simp [Argument.close]

end Caveat.Lib
