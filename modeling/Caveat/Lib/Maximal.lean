import Mathlib.Data.List.Pairwise
import Mathlib.Data.List.Induction

/-!
# Keeping what nothing covers

A list is gone through from the left, and an element is kept if nothing that is kept covers it. From
the other end that is `List.pwFilter`. Where an element that covers another stands before it, what is
kept are the maximal elements.
-/

namespace Caveat.Lib

variable {α : Type*} (covers : α → α → Bool)

/-- Keep an element, if nothing kept covers it. -/
def keep (kept : List α) (a : α) : List α :=
  if kept.any (fun b => covers b a) then kept else kept ++ [a]

def maximal (l : List α) : List α := l.foldl (keep covers) []

theorem maximal_concat (l : List α) (a : α) :
    maximal covers (l ++ [a]) = keep covers (maximal covers l) a := by
  rw [maximal, List.foldl_append]
  rfl

theorem maximal_eq_pwFilter (l : List α) :
    maximal covers l = (l.reverse.pwFilter (fun a b => covers b a = false)).reverse := by
  induction l using List.reverseRecOn with
  | nil => rfl
  | append_singleton l a ih =>
      rw [maximal_concat, keep, List.reverse_concat]
      by_cases h : (maximal covers l).any (fun b => covers b a) = true
      · have hcovered : ¬ ∀ b ∈ l.reverse.pwFilter (fun a b => covers b a = false),
            covers b a = false := by
          obtain ⟨b, hb, hba⟩ := List.any_eq_true.mp h
          rw [ih, List.mem_reverse] at hb
          intro hall
          rw [hall b hb] at hba
          cases hba
        rw [if_pos h, List.pwFilter_cons_of_neg hcovered, ih]
      · have hfree : ∀ b ∈ l.reverse.pwFilter (fun a b => covers b a = false),
            covers b a = false := by
          intro b hb
          rw [ih] at h
          refine Bool.eq_false_iff.mpr fun hba => h ?_
          exact List.any_eq_true.mpr ⟨b, List.mem_reverse.mpr hb, hba⟩
        rw [if_neg h, List.pwFilter_cons_of_pos hfree, List.reverse_cons, ih]

theorem maximal_sublist (l : List α) : (maximal covers l).Sublist l := by
  have h := (List.pwFilter_sublist (R := fun a b => covers b a = false) l.reverse).reverse
  rwa [← maximal_eq_pwFilter, List.reverse_reverse] at h

variable {covers} {l : List α}

/-- Nothing kept covers anything else that is kept. -/
theorem pairwise_maximal (h : l.Pairwise (fun a b => covers b a = true → covers a b = true)) :
    (maximal covers l).Pairwise (fun a b => covers a b = false ∧ covers b a = false) := by
  have hfirst : (maximal covers l).Pairwise (fun a b => covers a b = false) := by
    rw [maximal_eq_pwFilter, List.pairwise_reverse]
    exact List.pairwise_pwFilter _
  refine hfirst.imp₂ (fun a b hab hba => ⟨hab, Bool.eq_false_iff.mpr fun h => ?_⟩)
    (h.sublist (maximal_sublist covers l))
  rw [hba h] at hab
  cases hab

/-- Every element is covered by one that is kept. -/
theorem exists_covers_of_mem (hrefl : ∀ a, covers a a = true)
    (htrans : ∀ a b c, covers a b = true → covers b c = true → covers a c = true) {a : α}
    (ha : a ∈ l) : ∃ b ∈ maximal covers l, covers b a = true := by
  by_contra hnone
  have hfree : ∀ b ∈ l.reverse.pwFilter (fun a b => covers b a = false), covers b a = false := by
    intro b hb
    refine Bool.eq_false_iff.mpr fun hba => hnone ⟨b, ?_, hba⟩
    rw [maximal_eq_pwFilter]
    exact List.mem_reverse.mpr hb
  -- by transitivity, what the kept elements do not cover no element covers, not even itself
  have hall := (List.forall_mem_pwFilter (fun {x y z} hxz => ?_) a l.reverse).mp hfree a
    (List.mem_reverse.mpr ha)
  · rw [hrefl] at hall
    cases hall
  · by_cases hyx : covers y x = true
    · refine .inr (Bool.eq_false_iff.mpr fun hzy => ?_)
      rw [htrans z y x hzy hyx] at hxz
      cases hxz
    · exact .inl (Bool.eq_false_iff.mpr hyx)

end Caveat.Lib
