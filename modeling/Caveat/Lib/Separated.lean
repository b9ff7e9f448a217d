import Mathlib.Logic.Basic
import Mathlib.Data.List.Basic

/-!
# Parts joined with a separator

Joining with a separator that no part contains is undone by splitting at it, so the parts are
determined by the joined list and their number.
-/

namespace Caveat.Lib

variable {α : Type*} {sep : α}

theorem mem_intercalate {x : α} : ∀ {parts : List (List α)}, x ∈ [sep].intercalate parts →
    x = sep ∨ ∃ part ∈ parts, x ∈ part := by
  intro parts
  induction parts with
  | nil => intro h; exact absurd h (by simp)
  | cons part parts ih =>
      intro h
      by_cases hnil : parts = []
      · subst hnil
        exact .inr ⟨part, by simp, by simpa using h⟩
      · rw [List.intercalate_cons_of_ne_nil hnil] at h
        rcases List.mem_append.mp h with h | h
        · rcases List.mem_append.mp h with h | h
          · exact .inr ⟨part, by simp, h⟩
          · exact .inl (by simpa using h)
        · rcases ih h with hx | ⟨q, hq, hx⟩
          · exact .inl hx
          · exact .inr ⟨q, List.mem_cons_of_mem part hq, hx⟩

variable [BEq α] [LawfulBEq α]

theorem mem_of_mem_splitOn {joined : List α} :
    ∀ part ∈ joined.splitOn sep, ∀ x ∈ part, x ∈ joined ∧ x ≠ sep := by
  induction joined with
  | nil => simp
  | cons d joined ih =>
      have hkeep : ∀ {part : List α}, part ∈ joined.splitOn sep →
          ∀ x ∈ part, x ∈ d :: joined ∧ x ≠ sep :=
        fun hp x hx => ⟨List.mem_cons_of_mem d (ih _ hp x hx).1, (ih _ hp x hx).2⟩
      rw [List.splitOn_cons_eq_if_modifyHead]
      by_cases hd : (d == sep) = true
      · rw [if_pos hd]
        intro part hp
        rcases List.mem_cons.mp hp with rfl | hp
        · simp
        · exact hkeep hp
      · rw [if_neg hd]
        obtain ⟨e, es, hsplit⟩ := List.exists_cons_of_ne_nil (List.splitOn_ne_nil sep joined)
        rw [hsplit] at hkeep ⊢
        intro part hp x hx
        rcases List.mem_cons.mp hp with rfl | hp
        · rcases List.mem_cons.mp hx with rfl | hx
          · exact ⟨by simp, by simpa using hd⟩
          · exact hkeep (by simp) x hx
        · exact hkeep (List.mem_cons_of_mem e hp) x hx

/-- **The parts are determined by the joined list and their number.** -/
theorem intercalate_injective {parts parts' : List (List α)} (h : ∀ part ∈ parts, sep ∉ part)
    (h' : ∀ part ∈ parts', sep ∉ part) (hlen : parts.length = parts'.length)
    (he : [sep].intercalate parts = [sep].intercalate parts') : parts = parts' := by
  by_cases hnil : parts = []
  · subst hnil
    exact (List.length_eq_zero_iff.mp hlen.symm).symm
  · have hnil' : parts' ≠ [] := by
      rintro rfl
      exact hnil (List.length_eq_zero_iff.mp hlen)
    rw [← List.splitOn_intercalate sep h hnil, he, List.splitOn_intercalate sep h' hnil']

omit [BEq α] [LawfulBEq α] in
/-- The first separator tells where a text ends. -/
theorem append_separator_inj {a b x y : List α} (ha : sep ∉ a) (hb : sep ∉ b)
    (h : a ++ sep :: x = b ++ sep :: y) : a = b ∧ x = y := by
  induction a generalizing b with
  | nil =>
      cases b with
      | nil => exact ⟨rfl, (List.cons.inj h).2⟩
      | cons c b => exact absurd (List.mem_cons.mpr (Or.inl (List.cons.inj h).1)) hb
  | cons c a ih =>
      cases b with
      | nil => exact absurd (List.mem_cons.mpr (Or.inl (List.cons.inj h).1.symm)) ha
      | cons e b =>
          obtain ⟨rfl, hrest⟩ := List.cons.inj h
          obtain ⟨rfl, rfl⟩ := ih (fun hmem => ha (List.mem_cons_of_mem c hmem))
            (fun hmem => hb (List.mem_cons_of_mem c hmem)) hrest
          exact ⟨rfl, rfl⟩

/-- Parts that each end with the separator split into the parts and an empty rest. -/
theorem splitOn_terminated {parts : List (List α)} (h : ∀ part ∈ parts, sep ∉ part) :
    (parts.flatMap (fun part => part ++ [sep])).splitOn sep = parts ++ [[]] := by
  have hjoin : parts.flatMap (fun part => part ++ [sep]) = [sep].intercalate (parts ++ [[]]) := by
    clear h
    induction parts with
    | nil => simp
    | cons part parts ih =>
        rw [List.flatMap_cons, ih, List.cons_append, List.intercalate_cons_of_ne_nil (by simp)]
  have hparts : ∀ part ∈ parts ++ [[]], sep ∉ part := by
    intro part hpart
    rcases List.mem_append.mp hpart with hpart | hpart
    · exact h part hpart
    · rw [List.mem_singleton.mp hpart]
      exact List.not_mem_nil
  rw [hjoin, List.splitOn_intercalate sep hparts (by simp)]

end Caveat.Lib
