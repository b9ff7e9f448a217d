import Mathlib.Data.List.Infix

/-!
# Pairs written as their second

A list in which each `r` before an `n` is dropped: a text with line breaks of two characters, read
with breaks of one. It is taken apart where no such pair is cut, and as far as no pair begins it is
the list itself.
-/

namespace Caveat.Lib

variable {α : Type} [DecidableEq α]

/-- A list with each `r`, `n` in it as `n` alone. -/
def dropReturns (r n : α) : List α → List α
  | x :: y :: s => if x = r ∧ y = n then n :: dropReturns r n s else x :: dropReturns r n (y :: s)
  | s => s

variable {r n : α}

theorem dropReturns_cons {x : α} {s : List α} (h : ¬ (x = r ∧ s.head? = some n)) :
    dropReturns r n (x :: s) = x :: dropReturns r n s := by
  cases s with
  | nil => rfl
  | cons y s => exact if_neg fun he => h ⟨he.1, by rw [he.2]; rfl⟩

theorem mem_dropReturns {s : List α} {x : α} (h : x ∈ dropReturns r n s) : x ∈ s := by
  induction s using dropReturns.induct r n with
  | case1 a b s hab ih =>
      rw [dropReturns, if_pos hab] at h
      rcases List.mem_cons.mp h with rfl | h
      · rw [hab.2]
        exact List.mem_cons_of_mem _ List.mem_cons_self
      · exact List.mem_cons_of_mem _ (List.mem_cons_of_mem _ (ih h))
  | case2 a b s hab ih =>
      rw [dropReturns, if_neg hab] at h
      rcases List.mem_cons.mp h with rfl | h
      · exact List.mem_cons_self
      · exact List.mem_cons_of_mem _ (ih h)
  | case3 s hs =>
      rw [dropReturns.eq_2 r n s hs] at h
      exact h

theorem dropReturns_append {a b : List α} (h : ¬ (a.getLast? = some r ∧ b.head? = some n)) :
    dropReturns r n (a ++ b) = dropReturns r n a ++ dropReturns r n b := by
  induction a using dropReturns.induct r n with
  | case1 x y s hxy ih =>
      obtain ⟨rfl, rfl⟩ := hxy
      have hs : ¬ (s.getLast? = some x ∧ b.head? = some y) := by
        rintro ⟨hl, hb⟩
        refine h ⟨?_, hb⟩
        rw [List.getLast?_cons, List.getLast?_cons, hl]
        rfl
      have hcut : ∀ t, dropReturns x y (x :: y :: t) = y :: dropReturns x y t :=
        fun t => if_pos ⟨rfl, rfl⟩
      rw [List.cons_append, List.cons_append, hcut, hcut, ih hs]
      rfl
  | case2 x y s hxy ih =>
      have hs : ¬ ((y :: s).getLast? = some r ∧ b.head? = some n) := by
        rwa [List.getLast?_cons_cons] at h
      have hcons : ∀ t, dropReturns r n (x :: y :: t) = x :: dropReturns r n (y :: t) :=
        fun t => if_neg hxy
      rw [List.cons_append, List.cons_append, hcons, hcons, ← List.cons_append, ih hs]
      rfl
  | case3 s hs =>
      cases s with
      | nil => rfl
      | cons x s =>
          cases s with
          | nil =>
              rw [List.singleton_append, dropReturns_cons fun he => h ⟨by rw [he.1]; rfl, he.2⟩]
              rfl
          | cons y s => exact absurd rfl (hs x y s)

/-- The first `k` are the same exactly when no pair begins among them. -/
theorem take_dropReturns (hrn : r ≠ n) (s : List α) (k : Nat) :
    (dropReturns r n s).take k = s.take k ↔ ¬ [r, n] <:+: s.take (k + 1) := by
  induction k generalizing s with
  | zero =>
      refine ⟨fun _ h => ?_, fun _ => by simp⟩
      have hlen := h.length_le
      rw [List.length_take] at hlen
      simp only [List.length_cons, List.length_nil] at hlen
      omega
  | succ k ih =>
      cases s with
      | nil => simp [dropReturns]
      | cons x s =>
          rw [List.take_succ_cons, List.take_succ_cons, List.infix_cons_iff]
          by_cases hpair : x = r ∧ s.head? = some n
          · obtain ⟨rfl, hs⟩ := hpair
            cases s with
            | nil => exact absurd hs (by simp)
            | cons y s =>
                have hy : y = n := by simpa using hs
                subst hy
                have hcut : dropReturns x y (x :: y :: s) = y :: dropReturns x y s :=
                  if_pos ⟨rfl, rfl⟩
                rw [hcut, List.take_succ_cons]
                refine ⟨fun he => absurd (List.cons.inj he).1.symm hrn, fun h => absurd ?_ h⟩
                exact .inl ⟨s.take k, rfl⟩
          · have hpre : ¬ [r, n] <+: x :: s.take (k + 1) := by
              rintro ⟨t, ht⟩
              obtain ⟨hx, ht⟩ := List.cons.inj ht
              refine hpair ⟨hx.symm, ?_⟩
              cases s with
              | nil => simp at ht
              | cons y s => exact congrArg some (List.cons.inj ht).1.symm
            rw [dropReturns_cons hpair, List.take_succ_cons, List.cons_inj_right, ih s,
              or_iff_right hpre]

end Caveat.Lib
